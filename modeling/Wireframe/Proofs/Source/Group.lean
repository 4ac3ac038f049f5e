import Wireframe.Proofs.Node.Replace
import Wireframe.Proofs.Source.Print
import Wireframe.Proofs.Source.Relabel

/-! A group is read independently of what surrounds it. When the brackets among some lines
match, the lines are read in a group as they are read alone: what is open around the
group is neither looked at nor closed (`Tracks.reads_within`), and the entries lie
deeper by as many levels. The lines after the group are read as after a row in its
place (`exists_replace_of_parse`). -/

namespace Wireframe.Source

open Node Outline

/-! ### Lines within a group -/

theorem dropWhile_append_group (indent : Nat) (scopes outer : List Scope) :
    (scopes ++ .group :: outer).dropWhile (Scope.endsAt indent) =
      scopes.dropWhile (Scope.endsAt indent) ++ .group :: outer := by
  induction scopes with
  | nil => rfl
  | cons scope scopes ih =>
    rw [List.cons_append, List.dropWhile_cons, List.dropWhile_cons, ih]
    cases scope.endsAt indent <;> rfl

/-- Around scopes with a group in them, nothing is closed. -/
theorem closeGroup?_append {scopes mid : List Scope} (h : closeGroup? scopes = some mid)
    (outer : List Scope) : closeGroup? (scopes ++ outer) = some (mid ++ outer) := by
  induction scopes with
  | nil => contradiction
  | cons scope scopes ih =>
    cases scope with
    | group =>
      obtain rfl := Option.some.inj h
      rfl
    | sect own => exact ih h

/-- Without a group among the first scopes, the one after them is closed. -/
theorem closeGroup?_append_group {scopes : List Scope} (h : closeGroup? scopes = none)
    (outer : List Scope) : closeGroup? (scopes ++ .group :: outer) = some outer := by
  induction scopes with
  | nil => rfl
  | cons scope scopes ih =>
    cases scope with
    | group => contradiction
    | sect own => exact ih h

/-- A line that does not close the group around it is placed as it is alone. -/
theorem place_within {scopes outer left : List Scope} {line : Line} {entry : Option Entry}
    (hc : line.form = .close → closeGroup? scopes ≠ none)
    (h : place (scopes ++ .group :: outer) line = .ok (left, entry)) :
    ∃ mid entry', place scopes line = .ok (mid, entry') ∧ left = mid ++ .group :: outer ∧
      entry.toList = entry'.toList.map (.deeper (outer.length + 1)) := by
  rcases place_eq_ok h with ⟨hf, hclose, rfl⟩ | ⟨item, all, hf, rfl, hd, rfl, rfl⟩
  · obtain ⟨mid, hmid⟩ := Option.ne_none_iff_exists'.1 (hc hf)
    refine ⟨mid, none, ?_, ?_, rfl⟩
    · unfold place
      rw [hf]
      dsimp only
      rw [hmid]
    · rw [closeGroup?_append hmid] at hclose
      exact (Option.some.inj hclose).symm
  · rw [dropWhile_append_group, List.length_append, List.length_cons] at hd ⊢
    refine ⟨_, _, place_of_item hf fun hs => ?_, (List.append_assoc ..).symm, rfl⟩
    have := hd hs
    omega

/-- In lines whose closing brackets are all paired, no line reaches out of the group around them. -/
theorem Tracks.reads_within {lines : List Line} {i : Nat} {stack : List (Nat × Scope)}
    {outer left : List Scope} {o : Outline} (hm : ∀ c, ClosesAt lines c → ∃ g, Paired lines c g)
    (h : Tracks lines (LiveAt lines · i) stack) (hi : i ≤ lines.length)
    (hr : Reads (stack.map Prod.snd ++ .group :: outer) (lines.drop i) o left) :
    ∃ stack' o', Tracks lines (LiveAt lines · lines.length) stack' ∧
      Reads (stack.map Prod.snd) (lines.drop i) o' (stack'.map Prod.snd) ∧
      left = stack'.map Prod.snd ++ .group :: outer ∧ o = o'.map (.deeper (outer.length + 1)) := by
  induction hn : lines.length - i generalizing i stack o with
  | zero =>
    obtain rfl : i = lines.length := by omega
    rw [List.drop_length] at hr ⊢
    obtain ⟨rfl, rfl⟩ := reads_nil_iff.1 hr
    exact ⟨stack, [], h, .nil _, rfl, rfl⟩
  | succ n ih =>
    have hlt : i < lines.length := by omega
    have hl : lines[i]? = some lines[i] := List.getElem?_eq_getElem hlt
    rw [List.drop_eq_getElem_cons hlt] at hr ⊢
    obtain ⟨mid, entry, more, hp, hrest, rfl⟩ := reads_cons_iff.1 hr
    -- a closing bracket finds the group that it is paired with among its own scopes
    have hclose : lines[i].form = .close → closeGroup? (stack.map Prod.snd) ≠ none := by
      intro hf
      obtain ⟨g, hg⟩ := hm i ⟨lines[i], hl, read_eq_close_iff.1 hf⟩
      have hmem : (g, .group) ∈ stack :=
        (h.mem_iff g .group).2 ⟨⟨hg.lt, .inl hg.unclosed⟩, scopeAt?_of_groupAt hg.groupAt⟩
      rw [ne_eq, closeGroup?_eq_none_iff, List.count_eq_zero, not_not]
      exact List.mem_map_of_mem hmem
    obtain ⟨mid', entry', hp', rfl, he⟩ := place_within hclose hp
    obtain ⟨next, rfl, hnext⟩ := h.place hl hp'
    obtain ⟨stack', o', htracks, hreads, rfl, rfl⟩ := ih hnext hlt hrest (by omega)
    refine ⟨stack', entry'.toList ++ o', htracks, .cons hp' hreads, rfl, ?_⟩
    rw [he, List.map_append]

/-! ### Lines whose brackets match -/

/-- Every opening bracket is paired with a closing one and the other way round. -/
structure Matched (lines : List Line) : Prop where
  opened : ∀ g, GroupAt lines g → ∃ c, Paired lines c g
  closed : ∀ c, ClosesAt lines c → ∃ g, Paired lines c g

/-- After lines whose brackets match, none of their groups is open. -/
theorem Matched.closeGroup?_eq_none {lines : List Line} (hm : Matched lines)
    {stack : List (Nat × Scope)} (h : Tracks lines (LiveAt lines · lines.length) stack) :
    closeGroup? (stack.map Prod.snd) = none := by
  rw [closeGroup?_eq_none_iff, List.count_eq_zero, List.mem_map]
  rintro ⟨⟨g, scope⟩, hmem, rfl⟩
  obtain ⟨hlive, hscope⟩ := (h.mem_iff g .group).1 hmem
  rcases hlive.2 with hun | ⟨hs, -⟩
  · obtain ⟨c, hc⟩ := hm.opened g hun.1
    obtain ⟨line, hl, -⟩ := hc.closesAt
    exact hun.2 c (List.getElem?_eq_some_iff.1 hl).1 hc
  · rw [scopeAt?_of_sectAt hs] at hscope
    simp at hscope

/-- Lines whose brackets match are read in a group as alone, and the closing bracket after them
closes the group. -/
theorem Matched.reads_within {lines : List Line} (hm : Matched lines) {outer mid left : List Scope}
    {closing : Line} {o : Outline} {entry : Option Entry}
    (h : Reads (.group :: outer) lines o mid) (hc : closing.text = [']'])
    (hp : place mid closing = .ok (left, entry)) :
    (∃ alone own, Reads [] lines alone own ∧ o = alone.map (.deeper (outer.length + 1))) ∧
      left = outer ∧ entry = none := by
  obtain ⟨stack, alone, htracks, hreads, rfl, rfl⟩ :=
    (tracks_nil lines).reads_within hm.closed (Nat.zero_le _) h
  refine ⟨⟨alone, _, hreads, rfl⟩, ?_⟩
  rcases place_eq_ok hp with ⟨-, hclose, rfl⟩ | ⟨item, -, hf, -⟩
  · rw [closeGroup?_append_group (hm.closeGroup?_eq_none htracks)] at hclose
    exact ⟨(Option.some.inj hclose).symm, rfl⟩
  · rw [Line.form, read_eq_close_iff.2 hc] at hf
    contradiction

/-- Where a group with its lines is read, a row in its place is read as well, and the lines after
them alike. -/
theorem Matched.reads_row {lines rest : List Line} (hm : Matched lines) {scopes left : List Scope}
    {opening closing : Line} {o : Outline} (ho : opening.text = ['['])
    (hc : closing.text = [']']) {row : Line} (hr : RowText row.text)
    (hi : row.indent = opening.indent)
    (h : Reads scopes (opening :: (lines ++ closing :: rest)) o left) :
    ∃ k alone own after, Reads [] lines alone own ∧
      o = ⟨k, .group⟩ :: (alone.map (.deeper (k + 1)) ++ after) ∧
      Reads scopes (row :: rest) (⟨k, .row row.text⟩ :: after) left := by
  have hopening : opening.form = .item .group := read_eq_group_iff.2 ho
  have hrow : row.form = .item (.row row.text) :=
    read_eq_row_iff.2 ⟨rfl, hr.ne_close, hr.ne_open, hr.head_ne⟩
  obtain ⟨inner, entry, o₁, hopen, hinner, rfl⟩ := reads_cons_iff.1 h
  obtain ⟨mid, own, o₂, hown, hmid, rfl⟩ := reads_append_iff.1 hinner
  obtain ⟨next, entry', after, hclose, hrest, rfl⟩ := reads_cons_iff.1 hmid
  rcases place_eq_ok hopen with ⟨hf, -⟩ | ⟨item, outer, hf, houter, -, rfl, rfl⟩
  · rw [hopening] at hf
    contradiction
  · obtain rfl : Item.group = item := Form.item.inj (hopening.symm.trans hf)
    obtain ⟨⟨alone, left', halone, rfl⟩, rfl, rfl⟩ := hm.reads_within hown hc hclose
    refine ⟨next.length, alone, left', after, halone, rfl, ?_⟩
    have hplace : place scopes row = .ok (next, some ⟨next.length, .row row.text⟩) := by
      rw [place_of_item hrow (by simp [scopeOf?]), hi, ← houter]
      rfl
    exact .cons hplace hrest

/-! ### Numbers and counts -/

/-- Numbers do not matter for what is read. -/
theorem Reads.renumber {scopes left : List Scope} {lines lines' : List Line} {o : Outline}
    (h : Reads scopes lines o left) (hl : List.Forall₂ (Relabelled id) lines lines') :
    Reads scopes lines' o left := by
  have hid : Scope.relabel id = id := by
    funext scope
    cases scope <;> rfl
  have hr := h.relabel strictMono_id hl
  rwa [hid, List.map_id, List.map_id] at hr

theorem relabelled_self (line : Line) : Relabelled id line line := ⟨rfl, fun _ => rfl⟩

theorem relabelled_numbered (k k' : Nat) (raws : List Text) :
    List.Forall₂ (Relabelled id) (numbered k raws) (numbered k' raws) := by
  induction raws generalizing k k' with
  | nil => exact .nil
  | cons raw raws ih =>
    rw [numbered_cons, numbered_cons, Line.read?, Line.read?]
    cases raw.isBlank with
    | true => exact ih (k + 1) (k' + 1)
    | false => exact .cons ⟨rfl, fun _ => rfl⟩ (ih (k + 1) (k' + 1))

theorem itemAt_succ {line : Line} {lines : List Line} {i : Nat} :
    ItemAt (line :: lines) (i + 1) ↔ ItemAt lines i := by
  rw [ItemAt, ItemAt, List.getElem?_cons_succ]

/-- Each item among the first lines makes an entry. -/
theorem Reads.count_itemAt {scopes left : List Scope} {lines : List Line} {o : Outline}
    (h : Reads scopes lines o left) (more : List Line) :
    Nat.count (ItemAt (lines ++ more)) lines.length = o.length := by
  induction h with
  | nil scopes => rfl
  | @cons _ _ _ line entry lines o first rest ih =>
    rw [List.length_cons, Nat.count_succ', List.length_append, ← ih, List.cons_append]
    simp only [itemAt_succ]
    have hentry : entry.toList.length = if ItemAt (line :: (lines ++ more)) 0 then 1 else 0 := by
      rcases place_eq_ok first with ⟨hf, -, rfl⟩ | ⟨item, -, hf, -, -, -, rfl⟩
      · have hclose : ClosesAt (line :: (lines ++ more)) 0 := ⟨line, rfl, read_eq_close_iff.1 hf⟩
        rw [if_neg hclose.not_itemAt]
        rfl
      · have hitem : ItemAt (line :: (lines ++ more)) 0 := itemAt_of_form rfl hf
        rw [if_pos hitem]
        rfl
    rw [hentry, Nat.add_comm]

/-! ### Sources -/

theorem parse_of_reads {source : Text} {o : Outline} {left : List Scope}
    (h : Reads [] (linesOf source) o left) :
    parse source = .ok (.root o.forest) ∧ outlineAll 0 o.forest = o := by
  have ho : outlineAll 0 o.forest = o :=
    outlineAll_forest (nested_of_outline (outline_eq_ok_iff_reads.2 ⟨left, h⟩))
  refine ⟨parse_eq_ok_iff_reads.2 ⟨_, left, rfl, ?_⟩, ho⟩
  rwa [ho]

/-- Where raw lines with a group among them are read, so are the lines of the group alone and those
with a row in its place. -/
theorem exists_reads_row {pre body post : List Text} {opening closing row : Text} {o : Outline}
    {left : List Scope} (hopening : opening.trim = ['[']) (hclosing : closing.trim = [']'])
    (hm : Matched (numbered 1 body)) (htext : RowText row.trim)
    (hindent : indentOf row = indentOf opening)
    (h : Reads [] (numbered 1 (pre ++ opening :: (body ++ closing :: post))) o left) :
    ∃ scopes before k alone own after, Reads [] (numbered 1 pre) before scopes ∧
      Reads [] (numbered 1 body) alone own ∧
      o = before ++ ⟨k, .group⟩ :: (alone.map (.deeper (k + 1)) ++ after) ∧
      Reads [] (numbered 1 (pre ++ row :: post)) (before ++ ⟨k, .row row.trim⟩ :: after) left := by
  rw [numbered_append, numbered_cons_of_trim (by simp [hopening]), numbered_append,
    numbered_cons_of_trim (by simp [hclosing])] at h
  obtain ⟨scopes, before, o', hpre, hgroup, rfl⟩ := reads_append_iff.1 h
  -- the lines of the group have the numbers that they have alone, those after it follow the row
  have hgroup := hgroup.renumber (.cons (relabelled_self _)
    (List.rel_append (relabelled_numbered _ 1 body) (.cons (relabelled_self _)
      (relabelled_numbered _ (1 + pre.length + 1) post))))
  have hline : RowText (Line.mk (1 + pre.length) (indentOf row) row.trim).text := htext
  obtain ⟨k, alone, own, after, halone, rfl, hrow⟩ :=
    hm.reads_row hopening hclosing hline hindent hgroup
  refine ⟨scopes, before, k, alone, own, after, hpre, halone, rfl, ?_⟩
  rw [numbered_append, numbered_cons_of_trim htext.ne_nil]
  exact reads_append_iff.2 ⟨scopes, before, _, hpre, hrow, rfl⟩

/-- A group with lines in it whose brackets match has the trees of those lines, read on their own,
and everything else in the tree is as with a row in place of the group. -/
theorem exists_replace_of_parse {pre body post : List Text} {opening closing row : Text} {t : Node}
    (hlines : ∀ raw ∈ pre ++ opening :: (body ++ closing :: post), raw.OneLine)
    (hopening : opening.trim = ['[']) (hclosing : closing.trim = [']'])
    (hm : Matched (linesOf (Text.join ['\n'] body)))
    (hrow : row.OneLine) (htext : RowText row.trim) (hindent : indentOf row = indentOf opening)
    (h : parse (Text.join ['\n'] (pre ++ opening :: (body ++ closing :: post))) = .ok t) :
    ∃ b t' a, parse (Text.join ['\n'] body) = .ok b ∧
      parse (Text.join ['\n'] (pre ++ row :: post)) = .ok t' ∧
      addressOf? (linesOf (Text.join ['\n'] (pre ++ row :: post))) t'
        (pre.countP (! ·.isBlank)) = some a ∧
      t'.at? a = some (.row row.trim) ∧ t = t'.replace a (.group b.children) := by
  have hbody : ∀ raw ∈ body, raw.OneLine := fun raw hr => hlines raw (by simp [hr])
  have hrows : ∀ raw ∈ pre ++ row :: post, raw.OneLine := by
    intro raw hr
    rcases List.mem_append.1 hr with hr | hr
    · exact hlines raw (by simp [hr])
    · rcases List.mem_cons.1 hr with rfl | hr
      · exact hrow
      · exact hlines raw (by simp [hr])
  obtain ⟨ts, left, rfl, hread⟩ := parse_eq_ok_iff_reads.1 h
  rw [linesOf_join hlines] at hread
  rw [linesOf_join hbody] at hm
  obtain ⟨scopes, before, k, alone, own, after, hpre, halone, hts, hwhole⟩ :=
    exists_reads_row hopening hclosing hm htext hindent hread
  rw [← linesOf_join hbody] at halone
  rw [← linesOf_join hrows] at hwhole
  obtain ⟨hb, hob⟩ := parse_of_reads halone
  obtain ⟨ht', ho'⟩ := parse_of_reads hwhole
  have hpiece : (Node.group alone.forest).outline k =
      ⟨k, .group⟩ :: alone.map (.deeper (k + 1)) := by
    rw [Node.outline, ← Nat.zero_add (k + 1), outlineAll_add, hob, Nat.zero_add]
  have hts' : outlineAll 0 ts = before ++ ((Node.group alone.forest).outline k ++ after) := by
    rw [hpiece, hts]
    rfl
  obtain ⟨a, ha, hat, heq⟩ := exists_replace_row ho' hts'
  refine ⟨_, _, a, hb, ht', ?_, hat, heq⟩
  rw [addressOf?, linesOf_join hrows, numbered_append, ← length_numbered 1 pre, hpre.count_itemAt]
  exact ha

/-- Lines at the margin, with a group that starts there and ends further in. -/
def sampleBody : List Text := ["=c", "  x", "[", "=d", "  ]"].map String.toList

theorem matched_sampleBody : Matched (linesOf (Text.join ['\n'] sampleBody)) := by
  have hopen : ∀ g < 5, GroupAt (linesOf (Text.join ['\n'] sampleBody)) g → g = 2 := by decide
  have hclose : ∀ c < 5, ClosesAt (linesOf (Text.join ['\n'] sampleBody)) c → c = 4 := by decide
  have hpair : Paired (linesOf (Text.join ['\n'] sampleBody)) 4 2 := by
    refine paired_iff.2 ⟨by decide, by decide, ⟨by decide, fun c hc hp => ?_⟩, fun g h2 h4 hg => ?_⟩
    · have := hclose c (by omega) hp.closesAt
      omega
    · have := hopen g (by omega) hg.1
      omega
  constructor
  · rintro g ⟨line, hl, ht⟩
    have hlt : g < 5 := (List.getElem?_eq_some_iff.1 hl).1
    obtain rfl := hopen g hlt ⟨line, hl, ht⟩
    exact ⟨4, hpair⟩
  · rintro c ⟨line, hl, ht⟩
    have hlt : c < 5 := (List.getElem?_eq_some_iff.1 hl).1
    obtain rfl := hclose c hlt ⟨line, hl, ht⟩
    exact ⟨2, hpair⟩

/-- The lines in a group two sections down, whose closing bracket stands at the margin. -/
theorem exists_replace_of_parse_sampleBody :
    parse (Text.join ['\n'] (["=a".toList, "  =b".toList] ++
        "    [".toList :: (sampleBody ++ "]".toList :: ["  z".toList]))) =
      .ok (.root [.sect "a".toList none [.sect "b".toList none [.group [
        .sect "c".toList none [.row "x".toList], .group [.sect "d".toList none []]]],
        .row "z".toList]]) ∧
      ∃ b t' a, parse (Text.join ['\n'] sampleBody) = .ok b ∧
        parse (Text.join ['\n'] (["=a".toList, "  =b".toList] ++ "    left".toList ::
          ["  z".toList])) = .ok t' ∧
        addressOf? (linesOf (Text.join ['\n'] (["=a".toList, "  =b".toList] ++ "    left".toList ::
          ["  z".toList]))) t' 2 = some a ∧
        t'.at? a = some (.row "left".toList) ∧
        .root [.sect "a".toList none [.sect "b".toList none [.group [
          .sect "c".toList none [.row "x".toList], .group [.sect "d".toList none []]]],
          .row "z".toList]] = t'.replace a (.group b.children) := by
  have hlines : ∀ raw ∈ ["=a".toList, "  =b".toList] ++
      "    [".toList :: (sampleBody ++ "]".toList :: ["  z".toList]), Text.OneLine raw := by decide
  have hrow : Text.OneLine "    left".toList := by decide
  exact ⟨by rfl, exists_replace_of_parse hlines (by decide) (by decide) matched_sampleBody hrow
    (by decide) (by decide) (by rfl)⟩

end Wireframe.Source
