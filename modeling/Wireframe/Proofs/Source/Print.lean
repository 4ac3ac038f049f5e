import Mathlib.Data.List.DropRight
import Wireframe.Proofs.Source.Canonical
import Wireframe.Proofs.Source.Number

/-! Writing a tree as a source. Rows, headers and brackets stand on lines of their own,
two spaces further in for each node around them, and a closing bracket ends every
group. A canonical tree is read back from its source (`parse_source`): the lines of a
tree written at a level leave open just the scopes that do not end there, and add the
outline of the tree at the number of those scopes. -/

namespace Wireframe

namespace Node

/-- The header line of a section, without its indent. -/
def header (name : Text) : Option Ratio → Text
  | none => '=' :: name
  | some r => '=' :: name ++ ' ' :: Text.ofNat r.n.toNat ++ '/' :: Text.ofNat r.d.toNat

/-- A text behind two spaces for each level. -/
def indented (level : Nat) (text : Text) : Text := List.replicate (2 * level) ' ' ++ text

theorem header_eq_cons (name : Text) (ratio : Option Ratio) :
    header name ratio = '=' :: (header name ratio).tail := by
  cases ratio <;> rfl

mutual

/-- The lines of a tree at a level. A root has no line of its own. -/
def sourceLines (level : Nat) : Node → List Text
  | root children => sourceLinesAll level children
  | sect name ratio children =>
    indented level (header name ratio) :: sourceLinesAll (level + 1) children
  | group children =>
    indented level ['['] :: sourceLinesAll (level + 1) children ++ [indented level [']']]
  | row text => [indented level text]

def sourceLinesAll (level : Nat) : List Node → List Text
  | [] => []
  | t :: ts => sourceLines level t ++ sourceLinesAll level ts

end

/-- The source of a tree. -/
def source (t : Node) : Text := Text.join ['\n'] (t.sourceLines 0)

end Node

namespace Source

open Node Outline

/-! ### Headers -/

theorem trimmed_cons_of_getLast? {c : Char} {t : Text} (hc : blank c = false)
    (h : ∀ d ∈ t.getLast?, blank d = false) : Text.Trimmed (c :: t) := by
  refine ⟨fun d hd => ?_, fun d hd => ?_⟩
  · obtain rfl : c = d := by simpa using hd
    exact hc
  · rw [List.getLast?_cons] at hd
    obtain rfl := Option.some.inj hd
    cases ht : t.getLast? with
    | none => simpa [ht] using hc
    | some d => simpa [ht] using h d (by simp [ht])

theorem getLast?_ratio (t : Text) (n : Nat) :
    ∀ c ∈ (t ++ '/' :: Text.ofNat n).getLast?, blank c = false := by
  intro c hc
  have hl : (t ++ '/' :: Text.ofNat n).getLast? = (Text.ofNat n).getLast? := by
    rw [List.getLast?_append, List.getLast?_cons]
    cases h : (Text.ofNat n).getLast? with
    | none => exact absurd (List.getLast?_eq_none_iff.1 h) (Text.ofNat_ne_nil n)
    | some d => rfl
  rw [hl] at hc
  exact (digit_facts (Text.isDigit_of_mem_ofNat c (List.mem_of_mem_getLast? hc))).1

/-- What follows the equals sign of a written header is trimmed. -/
theorem trimmed_tail_header {name : Text} {ratio : Option Ratio} (h : SectionHead name ratio) :
    Text.Trimmed (header name ratio).tail := by
  cases ratio with
  | none => exact h.1
  | some r =>
    obtain ⟨hne, hw, -, -⟩ := h
    obtain ⟨c, name, rfl⟩ := List.exists_cons_of_ne_nil hne
    exact ⟨(trimmed_of_not_blank hw).1, getLast?_ratio _ _⟩

theorem ratioed_header {name : Text} {r : Ratio} (h : SectionHead name (some r)) :
    Ratioed (header name (some r)).tail name r := by
  obtain ⟨hne, hw, hn, hd⟩ := h
  refine ⟨[' '], Text.ofNat r.n.toNat, Text.ofNat r.d.toNat, ?_, hne, hw, by simp, ?_,
    positiveNumeral_ofNat hn, positiveNumeral_ofNat hd⟩
  · simp [header]
  · rintro c hc
    obtain rfl := List.mem_singleton.1 hc
    decide

/-- A written header is read as its name and ratio. -/
theorem readHeader_header {name : Text} {ratio : Option Ratio} (h : SectionHead name ratio) :
    readHeader (header name ratio) = (name, ratio) := by
  have ht := trimmed_tail_header h
  have hdrop : Text.dropFirst '=' (header name ratio) = (header name ratio).tail := by
    rw [header_eq_cons, Text.dropFirst, List.head?_cons, if_pos rfl]
  unfold readHeader
  dsimp only
  rw [hdrop, Text.trim_of_trimmed ht]
  cases ratio with
  | none =>
    have hnone : readRatioed? (header name none).tail = none := (sectionHead_none_iff.1 h).2.2
    rw [hnone]
    rfl
  | some r => rw [readRatioed?_of_ratioed (ratioed_header h)]

/-! ### Lines -/

theorem indentOf_indented {level : Nat} {text : Text} (h : ∀ c ∈ text.head?, blank c = false) :
    indentOf (indented level text) = level := by
  have hhead : text.head? ≠ some ' ' := fun hc => absurd (h ' ' hc) (by decide)
  rw [indented, indentOf_spaces hhead]
  omega

/-- An indented text is read as a line at its level. -/
theorem read?_indented {level : Nat} {text : Text} (hne : text ≠ []) (ht : text.Trimmed)
    (k : Nat) : Line.read? k (indented level text) = some ⟨k, level, text⟩ := by
  have hspace : ∀ c ∈ List.replicate (2 * level) ' ', blank c = true := by
    intro c hc
    rw [List.eq_of_mem_replicate hc]
    decide
  have hb : (indented level text).isBlank = false := by
    obtain ⟨c, text, rfl⟩ := List.exists_cons_of_ne_nil hne
    have hc : blank c = false := ht.1 c rfl
    simp [indented, Text.isBlank, hc]
  rw [Line.read?, hb, indentOf_indented ht.1, indented, Text.trim_append_of_trimmed hspace ht]
  rfl

/-! ### Scopes -/

/-- Closing the innermost group is not changed by sections that end before it. -/
theorem closeGroup?_dropWhile (indent : Nat) (scopes : List Scope) :
    closeGroup? (scopes.dropWhile (Scope.endsAt indent)) = closeGroup? scopes := by
  induction scopes with
  | nil => rfl
  | cons scope scopes ih =>
    cases scope with
    | group => rfl
    | sect own =>
      rw [List.dropWhile_cons]
      split
      · exact ih
      · rfl

/-- What ends at a deeper indent also ends here. -/
theorem dropWhile_endsAt_succ (level : Nat) (scopes : List Scope) :
    (scopes.dropWhile (Scope.endsAt (level + 1))).dropWhile (Scope.endsAt level) =
      scopes.dropWhile (Scope.endsAt level) := by
  induction scopes with
  | nil => rfl
  | cons scope scopes ih =>
    by_cases hs : scope.endsAt (level + 1) = true
    · have hs' : scope.endsAt level = true := by
        cases scope with
        | group => exact hs
        | sect own =>
          simp only [Scope.endsAt, decide_eq_true_eq] at hs ⊢
          omega
      rw [List.dropWhile_cons, if_pos hs, ih, List.dropWhile_cons, if_pos hs']
    · rw [List.dropWhile_cons, if_neg hs]

/-! ### Reading back -/

/-- The lines of a tree add its outline and leave open the scopes that do not end at its level. -/
def ReadsBack (level depth : Nat) (raws : List Text) (o : Outline) : Prop :=
  ∀ (scopes : List Scope) (k : Nat) (rest : List Line),
    (scopes.dropWhile (Scope.endsAt level)).length = depth →
      ∃ scopes', outline scopes (numbered k raws ++ rest) = (outline scopes' rest).map (o ++ ·) ∧
        scopes'.dropWhile (Scope.endsAt level) = scopes.dropWhile (Scope.endsAt level)

theorem map_append_nil (x : Except ParseError Outline) : x = x.map (([] : Outline) ++ ·) := by
  cases x <;> rfl

theorem map_append_map (x : Except ParseError Outline) (o o' : Outline) :
    (x.map (o' ++ ·)).map (o ++ ·) = x.map (o ++ o' ++ ·) := by
  cases x <;> simp [Except.map]

theorem ReadsBack.append {level depth : Nat} {raws more : List Text} {o o' : Outline}
    (h : ReadsBack level depth raws o) (h' : ReadsBack level depth more o') :
    ReadsBack level depth (raws ++ more) (o ++ o') := by
  intro scopes k rest hd
  obtain ⟨scopes', ho, hs⟩ := h scopes k (numbered (k + raws.length) more ++ rest) hd
  obtain ⟨scopes'', ho', hs'⟩ := h' scopes' (k + raws.length) rest (hs ▸ hd)
  refine ⟨scopes'', ?_, hs'.trans hs⟩
  rw [numbered_append, List.append_assoc, ho, ho', map_append_map]

/-- One line that is an item, before the rest of the lines. -/
theorem outline_indented {level depth : Nat} {text : Text} {item : Item}
    (hne : text ≠ []) (ht : text.Trimmed) (hf : Form.read text = .item item)
    {scopes : List Scope} (hd : (scopes.dropWhile (Scope.endsAt level)).length = depth)
    (hm : scopeOf? level item ≠ none → depth < maxDepth) (k : Nat) (raws : List Text)
    (rest : List Line) :
    outline scopes (numbered k (indented level text :: raws) ++ rest) =
      (outline ((scopeOf? level item).toList ++ scopes.dropWhile (Scope.endsAt level))
        (numbered (k + 1) raws ++ rest)).map ([⟨depth, item⟩] ++ ·) := by
  subst hd
  have hp : place scopes ⟨k, level, text⟩ = _ := place_of_item hf hm
  rw [numbered_cons, read?_indented hne ht]
  exact outline_cons_of_place hp _

theorem trimmed_singleton {c : Char} (h : blank c = false) : Text.Trimmed [c] :=
  trimmed_of_not_blank fun d hd => by rwa [List.mem_singleton.1 hd]

theorem readsBack_row {level depth : Nat} {text : Text} (h : RowText text) :
    ReadsBack level depth [indented level text] [⟨depth, .row text⟩] := by
  intro scopes k rest hd
  have hf : Form.read text = .item (.row text) :=
    read_eq_row_iff.2 ⟨rfl, h.ne_close, h.ne_open, h.head_ne⟩
  refine ⟨_, outline_indented h.ne_nil h.trimmed hf hd (fun hc => absurd rfl hc) k [] rest, ?_⟩
  exact List.dropWhile_idempotent _ _

theorem readsBack_sect {level depth : Nat} {name : Text} {ratio : Option Ratio} {raws : List Text}
    {o : Outline} (hd : depth < maxDepth) (h : SectionHead name ratio)
    (hr : ReadsBack (level + 1) (depth + 1) raws o) :
    ReadsBack level depth (indented level (header name ratio) :: raws)
      (⟨depth, .sect name ratio⟩ :: o) := by
  intro scopes k rest hs
  have hh := header_eq_cons name ratio
  have hne : header name ratio ≠ [] := by rw [hh]; simp
  have ht : (header name ratio).Trimmed := by
    rw [hh]
    exact trimmed_cons_of_getLast? (by decide) (trimmed_tail_header h).2
  have hf : Form.read (header name ratio) = .item (.sect name ratio) :=
    read_eq_sect_iff.2 ⟨by rw [hh]; rfl, readHeader_header h⟩
  have ho := outline_indented hne ht hf hs (fun _ => hd) k raws rest
  -- the section itself does not end at the level of its children
  have hstay : (Scope.sect level :: scopes.dropWhile (Scope.endsAt level)).dropWhile
      (Scope.endsAt (level + 1)) = Scope.sect level :: scopes.dropWhile (Scope.endsAt level) := by
    rw [List.dropWhile_cons, if_neg (by simp [Scope.endsAt])]
  obtain ⟨scopes', ho', hs'⟩ := hr (.sect level :: scopes.dropWhile (Scope.endsAt level)) (k + 1)
    rest (by rw [hstay, List.length_cons, hs])
  refine ⟨scopes', ?_, ?_⟩
  · rw [ho]
    change (outline (.sect level :: scopes.dropWhile (Scope.endsAt level)) _).map _ = _
    rw [ho', map_append_map]
    rfl
  · rw [← dropWhile_endsAt_succ, hs', hstay, List.dropWhile_cons, if_pos (by simp [Scope.endsAt]),
      List.dropWhile_idempotent]

theorem readsBack_group {level depth : Nat} {raws : List Text} {o : Outline}
    (hd : depth < maxDepth) (hr : ReadsBack (level + 1) (depth + 1) raws o) :
    ReadsBack level depth (indented level ['['] :: raws ++ [indented level [']']])
      (⟨depth, .group⟩ :: o) := by
  intro scopes k rest hs
  have hf : Form.read ['['] = .item .group := read_eq_group_iff.2 rfl
  have ho := outline_indented (by simp) (trimmed_singleton (by decide)) hf hs (fun _ => hd) k
    (raws ++ [indented level [']']]) rest
  have hstay : (Scope.group :: scopes.dropWhile (Scope.endsAt level)).dropWhile
      (Scope.endsAt (level + 1)) = Scope.group :: scopes.dropWhile (Scope.endsAt level) := by
    rw [List.dropWhile_cons, if_neg (by simp [Scope.endsAt])]
  obtain ⟨scopes', ho', hs'⟩ := hr (.group :: scopes.dropWhile (Scope.endsAt level)) (k + 1)
    (⟨k + 1 + raws.length, level, [']']⟩ :: rest) (by rw [hstay, List.length_cons, hs])
  -- the closing bracket leaves what was open before the group
  have hc : closeGroup? scopes' = some (scopes.dropWhile (Scope.endsAt level)) := by
    rw [← closeGroup?_dropWhile (level + 1), hs', hstay]
    rfl
  have hp : place scopes' ⟨k + 1 + raws.length, level, [']']⟩ =
      .ok (scopes.dropWhile (Scope.endsAt level), none) := by
    unfold place
    rw [show Line.form ⟨k + 1 + raws.length, level, [']']⟩ = .close from rfl]
    dsimp only
    rw [hc]
  refine ⟨scopes.dropWhile (Scope.endsAt level), ?_, List.dropWhile_idempotent _ _⟩
  rw [List.cons_append, ho, numbered_append, List.append_assoc, numbered_cons,
    read?_indented (by simp) (trimmed_singleton (by decide))]
  change (outline (.group :: scopes.dropWhile (Scope.endsAt level))
    (numbered (k + 1) raws ++ ⟨k + 1 + raws.length, level, [']']⟩ :: rest)).map _ = _
  rw [ho', outline_cons_of_place hp, Option.toList_none, ← map_append_nil, map_append_map]
  rfl

mutual

theorem readsBack_sourceLines (level depth : Nat) (t : Node) (h : t.CanonicalAt (depth + 1)) :
    ReadsBack level depth (t.sourceLines level) (t.outline depth) := by
  cases t with
  | root ts => exact h.elim
  | sect name ratio ts =>
    exact readsBack_sect h.1 h.2.1 (readsBack_sourceLinesAll (level + 1) (depth + 1) ts h.2.2)
  | group ts =>
    exact readsBack_group h.1 (readsBack_sourceLinesAll (level + 1) (depth + 1) ts h.2)
  | row text => exact readsBack_row h

theorem readsBack_sourceLinesAll (level depth : Nat) (ts : List Node)
    (h : CanonicalAllAt (depth + 1) ts) :
    ReadsBack level depth (sourceLinesAll level ts) (outlineAll depth ts) := by
  cases ts with
  | nil => exact fun scopes k rest _ => ⟨scopes, map_append_nil _, rfl⟩
  | cons t ts =>
    exact (readsBack_sourceLines level depth t h.1).append
      (readsBack_sourceLinesAll level depth ts h.2)

end

theorem oneLine_indented {level : Nat} {text : Text} (h : text.OneLine) :
    (indented level text).OneLine := by
  intro c hc
  rcases List.mem_append.1 hc with hc | hc
  · rw [List.eq_of_mem_replicate hc]
    decide
  · exact h c hc

theorem oneLine_header {name : Text} {ratio : Option Ratio} (h : SectionHead name ratio) :
    (header name ratio).OneLine := by
  cases ratio with
  | none =>
    intro c hc
    rcases List.mem_cons.1 hc with rfl | hc
    · decide
    · exact h.2.1 c hc
  | some r =>
    have hdigit : ∀ n, (Text.ofNat n).OneLine := fun n =>
      Text.oneLine_of_not_blank fun c hc => (digit_facts (Text.isDigit_of_mem_ofNat c hc)).1
    intro c hc
    simp only [header, List.mem_append, List.mem_cons] at hc
    rcases hc with ((rfl | hc) | rfl | hc) | rfl | hc
    · decide
    · exact h.name.2 c hc
    · decide
    · exact hdigit _ c hc
    · decide
    · exact hdigit _ c hc

mutual

theorem oneLine_of_mem_sourceLines (level n : Nat) (t : Node) (h : t.CanonicalAt n) :
    ∀ raw ∈ t.sourceLines level, Text.OneLine raw := by
  cases t with
  | root ts => exact h.elim
  | sect name ratio ts =>
    intro raw hr
    rcases List.mem_cons.1 hr with rfl | hr
    · exact oneLine_indented (oneLine_header h.2.1)
    · exact oneLine_of_mem_sourceLinesAll (level + 1) (n + 1) ts h.2.2 raw hr
  | group ts =>
    have hb : ∀ c, blank c = false → Text.OneLine (indented level [c]) := fun c hc =>
      oneLine_indented (Text.oneLine_of_not_blank fun d hd => by rwa [List.mem_singleton.1 hd])
    intro raw hr
    simp only [sourceLines, List.mem_append, List.mem_cons, List.not_mem_nil, or_false] at hr
    rcases hr with (rfl | hr) | rfl
    · exact hb '[' (by decide)
    · exact oneLine_of_mem_sourceLinesAll (level + 1) (n + 1) ts h.2 raw hr
    · exact hb ']' (by decide)
  | row text =>
    intro raw hr
    rw [List.mem_singleton.1 hr]
    exact oneLine_indented (RowText.oneLine h)

theorem oneLine_of_mem_sourceLinesAll (level n : Nat) (ts : List Node) (h : CanonicalAllAt n ts) :
    ∀ raw ∈ sourceLinesAll level ts, Text.OneLine raw := by
  cases ts with
  | nil => simp [sourceLinesAll]
  | cons t ts =>
    intro raw hr
    rcases List.mem_append.1 hr with hr | hr
    · exact oneLine_of_mem_sourceLines level n t h.1 raw hr
    · exact oneLine_of_mem_sourceLinesAll level n ts h.2 raw hr

end

/-- The lines of joined raw lines; no raw lines at all make one blank line. -/
theorem linesOf_join {raws : List Text} (h : ∀ raw ∈ raws, Text.OneLine raw) :
    linesOf (Text.join ['\n'] raws) = numbered 1 raws := by
  by_cases hr : raws = []
  · subst hr
    rfl
  · rw [linesOf_eq_numbered, Text.lines_join hr h]

/-- A canonical tree is read back from its source. -/
theorem parse_source {t : Node} (h : t.Canonical) : parse t.source = .ok t := by
  cases t with
  | root ts =>
    refine parse_eq_ok_iff.2 ⟨ts, rfl, ?_⟩
    have hl := linesOf_join (oneLine_of_mem_sourceLinesAll 0 1 ts h)
    obtain ⟨scopes, ho, -⟩ := readsBack_sourceLinesAll 0 0 ts h [] 1 [] rfl
    rw [List.append_nil] at ho
    change outline [] (linesOf (Text.join ['\n'] (sourceLinesAll 0 ts))) = _
    rw [hl, ho]
    simp [outline, Except.map]
  | _ => exact h.elim

/-- A section before and in a group, with a name that is nearly a name with a ratio. -/
theorem parse_source_sample :
    (Node.root [.sect "=a".toList (some ⟨1, 2⟩) [.row "x".toList, .group [.sect "b 0/3".toList none
        [.group []], .row "[ ]".toList]], .row "y".toList]).Canonical ∧
      parse (Text.join ['\n'] ["==a 1/2".toList, "  x".toList, "  [".toList, "    =b 0/3".toList,
          "      [".toList, "      ]".toList, "    [ ]".toList, "  ]".toList, "y".toList]) =
        .ok (.root [.sect "=a".toList (some ⟨1, 2⟩) [.row "x".toList, .group [.sect "b 0/3".toList
          none [.group []], .row "[ ]".toList]], .row "y".toList]) :=
  have h : (Node.root [.sect "=a".toList (some ⟨1, 2⟩) [.row "x".toList, .group [.sect
      "b 0/3".toList none [.group []], .row "[ ]".toList]], .row "y".toList]).Canonical := by decide
  ⟨h, parse_source h⟩

end Source

end Wireframe
