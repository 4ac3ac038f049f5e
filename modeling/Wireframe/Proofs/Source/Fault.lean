import Wireframe.Proofs.Source.Nesting
import Wireframe.Proofs.Source.Number
import Wireframe.Proofs.Text.LineEnd

/-! Where parsing fails. Two faults are told from the lines alone: a closing bracket is
unmatched when the closing brackets up to it outnumber the opening ones before it
(`UnmatchedAt`), and a section or a group is too deep when `maxDepth` lines are open at
it already (`TooDeepAt`). While no line is at fault, the groups among the open scopes
are as many as there are opening brackets more than closing ones (`Reaches`), so a
line is placed unless it is at fault, and parsing reports the first fault and nothing
else (`faultsReported`). -/

namespace Wireframe.Source

open Node Outline

variable {lines : List Line}

/-! ### One line that is not placed -/

theorem place_eq_error_iff {scopes : List Scope} {line : Line} {e : ParseError} :
    place scopes line = .error e ↔
      (line.form = .close ∧ closeGroup? scopes = none ∧ e = .unmatchedClose line.number) ∨
        ∃ item, line.form = .item item ∧ scopeOf? line.indent item ≠ none ∧
          maxDepth ≤ (scopes.dropWhile (Scope.endsAt line.indent)).length ∧
          e = .tooDeep line.number maxDepth := by
  unfold place
  cases hf : line.form with
  | close => cases closeGroup? scopes <;> simp [eq_comm]
  | item item =>
    dsimp only
    cases hs : scopeOf? line.indent item with
    | none => simp [hs]
    | some scope =>
      dsimp only
      split
      · next hd => simp [hs, hd, eq_comm]
      · next hd => simp [hd]

theorem outline_cons_eq_error_iff {scopes : List Scope} {line : Line} {lines : List Line}
    {e : ParseError} :
    outline scopes (line :: lines) = .error e ↔
      place scopes line = .error e ∨
        ∃ scopes' entry, place scopes line = .ok (scopes', entry) ∧
          outline scopes' lines = .error e := by
  cases hp : place scopes line with
  | error e' => simp [outline, hp]
  | ok placed =>
    obtain ⟨scopes', entry⟩ := placed
    rw [outline_cons_of_place hp]
    cases ho : outline scopes' lines <;> simp [ho, Except.map]

theorem parse_eq_error_iff {source : Text} {e : ParseError} :
    parse source = .error e ↔ outline [] (linesOf source) = .error e := by
  unfold parse
  cases outline [] (linesOf source) <;> simp [Except.map]

/-! ### Counting groups -/

theorem count_group_dropWhile (indent : Nat) (scopes : List Scope) :
    (scopes.dropWhile (Scope.endsAt indent)).count .group = scopes.count .group := by
  induction scopes with
  | nil => rfl
  | cons scope scopes ih =>
    cases scope with
    | group => rfl
    | sect own =>
      rw [List.dropWhile_cons]
      split
      · simpa using ih
      · rfl

/-- A closing bracket closes one group. -/
theorem count_group_closeGroup? {scopes outer : List Scope} (h : closeGroup? scopes = some outer) :
    scopes.count .group = outer.count .group + 1 := by
  induction scopes with
  | nil => contradiction
  | cons scope scopes ih =>
    cases scope with
    | group =>
      obtain rfl := Option.some.inj h
      simp
    | sect own => simpa using ih h

theorem closeGroup?_eq_none_iff {scopes : List Scope} :
    closeGroup? scopes = none ↔ scopes.count .group = 0 := by
  induction scopes with
  | nil => simp [closeGroup?]
  | cons scope scopes ih =>
    cases scope with
    | group => simp [closeGroup?]
    | sect own => simpa [closeGroup?] using ih

/-! ### Faults -/

section
variable (lines : List Line)

instance : DecidablePred (ClosesAt lines) := fun i =>
  inferInstanceAs (Decidable (∃ line ∈ lines[i]?, line.text = [']']))

instance : DecidablePred (GroupAt lines) := fun i =>
  inferInstanceAs (Decidable (∃ line ∈ lines[i]?, line.text = ['[']))

/-- Line `i` is a closing bracket, and up to it there are more of these than there are opening
brackets before it. -/
def UnmatchedAt (i : Nat) : Prop :=
  ClosesAt lines i ∧ Nat.count (GroupAt lines) i < Nat.count (ClosesAt lines) (i + 1)

/-- Line `i` opens a section or a group where `maxDepth` lines are open already. -/
def TooDeepAt (i : Nat) : Prop :=
  (GroupAt lines i ∨ SectAt lines i) ∧ maxDepth ≤ (openLines lines i).card

/-- Line `i` is at fault, and `e` says how. -/
def FaultAt (i : Nat) (e : ParseError) : Prop :=
  ∃ line, lines[i]? = some line ∧
    (UnmatchedAt lines i ∧ e = .unmatchedClose line.number ∨
      TooDeepAt lines i ∧ e = .tooDeep line.number maxDepth)

/-- No line before line `i` is at fault. -/
def SoundBefore (i : Nat) : Prop := ∀ j < i, ¬ UnmatchedAt lines j ∧ ¬ TooDeepAt lines j

end

theorem UnmatchedAt.exists_line {i : Nat} (h : UnmatchedAt lines i) :
    ∃ line, lines[i]? = some line := by
  obtain ⟨⟨line, hl, -⟩, -⟩ := h
  exact ⟨line, hl⟩

theorem TooDeepAt.exists_line {i : Nat} (h : TooDeepAt lines i) :
    ∃ line, lines[i]? = some line := by
  rcases h.1 with ⟨line, hl, -⟩ | ⟨line, hl, -⟩ <;> exact ⟨line, hl⟩

theorem soundBefore_iff {i : Nat} :
    SoundBefore lines i ↔ ∀ j < i, ∀ e, ¬ FaultAt lines j e := by
  refine forall₂_congr fun j _ => ⟨?_, fun h => ⟨fun hu => ?_, fun hd => ?_⟩⟩
  · rintro ⟨hu, hd⟩ e ⟨line, -, ⟨hu', -⟩ | ⟨hd', -⟩⟩
    · exact hu hu'
    · exact hd hd'
  · obtain ⟨line, hl⟩ := hu.exists_line
    exact h _ ⟨line, hl, .inl ⟨hu, rfl⟩⟩
  · obtain ⟨line, hl⟩ := hd.exists_line
    exact h _ ⟨line, hl, .inr ⟨hd, rfl⟩⟩

/-! ### Reaching a line -/

/-- Line `i` is reached with these scopes: they are those of the live lines, and a group is open for
each opening bracket that no closing bracket makes up for. -/
structure Reaches (lines : List Line) (i : Nat) (stack : List (Nat × Scope)) : Prop where
  tracks : Tracks lines (LiveAt lines · i) stack
  balance : (stack.map Prod.snd).count .group + Nat.count (ClosesAt lines) i =
    Nat.count (GroupAt lines) i

theorem reaches_zero (lines : List Line) : Reaches lines 0 [] :=
  ⟨tracks_nil lines, rfl⟩

theorem groupAt_or_sectAt_iff {i : Nat} {line : Line} {item : Item} (hl : lines[i]? = some line)
    (hf : line.form = .item item) :
    GroupAt lines i ∨ SectAt lines i ↔ scopeOf? line.indent item ≠ none := by
  have hs : scopeAt? lines i = scopeOf? line.indent item := by simp [scopeAt?, hl, hf]
  rw [← hs]
  constructor
  · rintro (hg | hs')
    · simp [scopeAt?_of_groupAt hg]
    · simp [scopeAt?_of_sectAt hs']
  · intro hne
    obtain ⟨scope, hscope⟩ := Option.ne_none_iff_exists'.1 hne
    exact groupAt_or_sectAt_of_scopeAt? hscope

/-- A line that is reached is placed unless it is at fault. -/
theorem Reaches.place_eq_error_iff {i : Nat} {line : Line} {stack : List (Nat × Scope)}
    {e : ParseError} (h : Reaches lines i stack) (hl : lines[i]? = some line) :
    place (stack.map Prod.snd) line = .error e ↔ FaultAt lines i e := by
  have hbalance := h.balance
  rw [Source.place_eq_error_iff]
  cases hf : line.form with
  | close =>
    have hc : ClosesAt lines i := ⟨line, hl, read_eq_close_iff.1 hf⟩
    have hcount := Nat.count_succ_eq_succ_count_iff.2 hc
    have hun : closeGroup? (stack.map Prod.snd) = none ↔ UnmatchedAt lines i := by
      rw [closeGroup?_eq_none_iff, UnmatchedAt, hcount, and_iff_right hc]
      omega
    have hdeep : ¬ TooDeepAt lines i :=
      fun hd => hc.not_itemAt (hd.1.elim (·.itemAt) (·.itemAt))
    simp [FaultAt, hl, hun, hdeep]
  | item item =>
    have hi : ItemAt lines i := itemAt_of_form hl hf
    have hun : ¬ UnmatchedAt lines i := fun hu => hu.1.not_itemAt hi
    rw [h.tracks.length_dropWhile hl hi]
    simp only [reduceCtorEq, false_and, false_or, Form.item.injEq, exists_eq_left', FaultAt,
      hl, Option.some.injEq, hun, TooDeepAt, groupAt_or_sectAt_iff hl hf, and_assoc]

/-- A line that is placed leaves the next line reached. -/
theorem Reaches.place {i : Nat} {line : Line} {stack : List (Nat × Scope)} {scopes : List Scope}
    {entry : Option Entry} (h : Reaches lines i stack) (hl : lines[i]? = some line)
    (hp : place (stack.map Prod.snd) line = .ok (scopes, entry)) :
    ∃ stack', scopes = stack'.map Prod.snd ∧ Reaches lines (i + 1) stack' := by
  obtain ⟨stack', rfl, ht⟩ := h.tracks.place hl hp
  refine ⟨stack', rfl, ht, ?_⟩
  have hbalance := h.balance
  rcases place_eq_ok hp with ⟨hf, hc, -⟩ | ⟨item, outer, hf, rfl, -, hs, -⟩
  · have hclose : ClosesAt lines i := ⟨line, hl, read_eq_close_iff.1 hf⟩
    have hgroup : ¬ GroupAt lines i := fun hg => hclose.not_itemAt hg.itemAt
    rw [Nat.count_succ_eq_succ_count_iff.2 hclose, Nat.count_succ_eq_count_iff.2 hgroup]
    have := count_group_closeGroup? hc
    omega
  · have hclose : ¬ ClosesAt lines i := fun hc => hc.not_itemAt (itemAt_of_form hl hf)
    have hgroup : GroupAt lines i ↔ item = .group := by
      constructor
      · rintro ⟨line', hl', ht⟩
        obtain rfl := Option.some.inj (hl.symm.trans hl')
        exact Form.item.inj (hf.symm.trans (read_eq_group_iff.2 ht))
      · rintro rfl
        exact ⟨line, hl, read_eq_group_iff.1 hf⟩
    have hscope : (scopeOf? line.indent item).toList.count .group =
        if item = .group then 1 else 0 := by
      cases item <;> simp [scopeOf?]
    rw [hs, List.count_append, count_group_dropWhile, hscope, Nat.count_succ, Nat.count_succ,
      if_neg hclose]
    simp only [hgroup]
    omega

/-- From a line that is reached on, reading fails at the first line at fault. -/
theorem Reaches.outline_eq_error_iff {i : Nat} {stack : List (Nat × Scope)} {e : ParseError}
    (h : Reaches lines i stack) :
    outline (stack.map Prod.snd) (lines.drop i) = .error e ↔
      ∃ k, i ≤ k ∧ FaultAt lines k e ∧ ∀ j, i ≤ j → j < k → ∀ e', ¬ FaultAt lines j e' := by
  -- the induction is on the lines left: each step places one and reaches the next
  induction hn : lines.length - i generalizing i stack with
  | zero =>
    rw [List.drop_eq_nil_of_le (by omega)]
    refine iff_of_false (by simp [outline]) ?_
    rintro ⟨k, hk, ⟨line, hl, -⟩, -⟩
    have hlt := (List.getElem?_eq_some_iff.1 hl).1
    omega
  | succ n ih =>
    have hlt : i < lines.length := by omega
    have hl : lines[i]? = some lines[i] := List.getElem?_eq_getElem hlt
    rw [List.drop_eq_getElem_cons hlt, outline_cons_eq_error_iff, h.place_eq_error_iff hl]
    constructor
    · rintro (hfault | ⟨scopes, entry, hp, ho⟩)
      · exact ⟨i, Nat.le_refl i, hfault, fun j hij hji => absurd hji (Nat.not_lt.2 hij)⟩
      · obtain ⟨stack', rfl, h'⟩ := h.place hl hp
        obtain ⟨k, hik, hk, hfirst⟩ := (ih h' (by omega)).1 ho
        refine ⟨k, by omega, hk, fun j hij hjk e' hj => ?_⟩
        rcases Nat.eq_or_lt_of_le hij with rfl | hlt'
        · have := (h.place_eq_error_iff hl).2 hj
          rw [hp] at this
          contradiction
        · exact hfirst j hlt' hjk e' hj
    · rintro ⟨k, hik, hk, hfirst⟩
      rcases Nat.eq_or_lt_of_le hik with rfl | hlt'
      · exact .inl hk
      · cases hp : Source.place (stack.map Prod.snd) lines[i] with
        | error e' =>
          exact absurd ((h.place_eq_error_iff hl).1 hp) (hfirst i (Nat.le_refl i) hlt' e')
        | ok placed =>
          obtain ⟨scopes, entry⟩ := placed
          obtain ⟨stack', rfl, h'⟩ := h.place hl hp
          refine .inr ⟨_, entry, rfl, (ih h' (by omega)).2 ⟨k, hlt', hk, fun j hij hjk => ?_⟩⟩
          exact hfirst j (by omega) hjk

/-- Parsing fails with the first fault. -/
theorem parse_eq_error_iff_faultAt {source : Text} {e : ParseError} :
    parse source = .error e ↔
      ∃ i, FaultAt (linesOf source) i e ∧ SoundBefore (linesOf source) i := by
  have h := (reaches_zero (linesOf source)).outline_eq_error_iff (e := e)
  rw [List.map_nil, List.drop_zero] at h
  simp only [parse_eq_error_iff, h, soundBefore_iff, Nat.zero_le, true_and, forall_const]

/-- If any line is at fault, there is a first one. -/
theorem exists_first_faultAt {i : Nat} (h : ¬ SoundBefore lines i) :
    ∃ j e, j < i ∧ FaultAt lines j e ∧ SoundBefore lines j := by
  classical
  rw [soundBefore_iff] at h
  push Not at h
  obtain ⟨hlt, e, he⟩ := Nat.find_spec h
  refine ⟨Nat.find h, e, hlt, he, soundBefore_iff.2 fun k hk e' hf => ?_⟩
  exact Nat.find_min h hk ⟨Nat.lt_trans hk hlt, e', hf⟩

/-! ### What a fault depends on -/

theorem exists_line_of_outline_error {scopes : List Scope} {lines : List Line} {e : ParseError}
    (h : outline scopes lines = .error e) : ∃ line ∈ lines, e.line = line.number := by
  induction lines generalizing scopes with
  | nil => contradiction
  | cons line lines ih =>
    rcases outline_cons_eq_error_iff.1 h with hp | ⟨scopes', entry, -, ho⟩
    · refine ⟨line, List.mem_cons_self, ?_⟩
      rcases place_eq_error_iff.1 hp with ⟨-, -, rfl⟩ | ⟨item, -, -, -, rfl⟩ <;> rfl
    · obtain ⟨line', hl, he⟩ := ih ho
      exact ⟨line', List.mem_cons_of_mem _ hl, he⟩

/-- Lines that do not have the number of an error play no part in it if they come last. -/
theorem outline_append_eq_error_iff {scopes : List Scope} {lines more : List Line} {e : ParseError}
    (h : ∀ line ∈ more, e.line ≠ line.number) :
    outline scopes (lines ++ more) = .error e ↔ outline scopes lines = .error e := by
  induction lines generalizing scopes with
  | nil =>
    refine iff_of_false (fun ho => ?_) (by simp [outline])
    obtain ⟨line, hl, he⟩ := exists_line_of_outline_error ho
    exact h line hl he
  | cons line lines ih =>
    rw [List.cons_append, outline_cons_eq_error_iff, outline_cons_eq_error_iff]
    simp only [ih]

/-- An error at one of the first `n` raw lines is an error of these lines. -/
theorem parse_eq_error_iff_take {source : Text} {n : Nat} {e : ParseError} (he : e.line ≤ n) :
    parse source = .error e ↔
      outline [] (numbered 1 ((Text.lines source).take n)) = .error e := by
  rw [parse_eq_error_iff, linesOf_eq_numbered]
  conv_lhs => rw [← List.take_append_drop n (Text.lines source), numbered_append]
  refine outline_append_eq_error_iff fun line hl => ?_
  obtain ⟨k, raw, hk, -, rfl⟩ := mem_numbered_iff.1 hl
  have hlt := (List.getElem?_eq_some_iff.1 hk).1
  rw [List.length_drop] at hlt
  rw [List.length_take]
  dsimp only
  omega

theorem closesAt_iff_text {i : Nat} :
    ClosesAt lines i ↔ (lines.map (·.text))[i]? = some [']'] := by
  simp [ClosesAt, List.getElem?_map]

theorem groupAt_iff_text {i : Nat} :
    GroupAt lines i ↔ (lines.map (·.text))[i]? = some ['['] := by
  simp [GroupAt, List.getElem?_map]

/-- Whether a closing bracket is unmatched depends on the texts of the lines alone. -/
theorem unmatchedAt_congr {lines lines' : List Line}
    (h : lines'.map (·.text) = lines.map (·.text)) (i : Nat) :
    UnmatchedAt lines' i ↔ UnmatchedAt lines i := by
  have hc : ClosesAt lines' = ClosesAt lines := by
    funext j
    rw [eq_iff_iff, closesAt_iff_text, closesAt_iff_text, h]
  have hg : GroupAt lines' = GroupAt lines := by
    funext j
    rw [eq_iff_iff, groupAt_iff_text, groupAt_iff_text, h]
  simp only [UnmatchedAt, hc, hg]

/-- With other indents, an unmatched closing bracket stays the first fault unless a line before it
is too deep now. -/
theorem parse_eq_unmatchedClose_of_texts {source source' : Text} {n : Nat}
    (hl : (linesOf source').map (fun line => (line.number, line.text)) =
      (linesOf source).map fun line => (line.number, line.text))
    (h : parse source = .error (.unmatchedClose n)) :
    parse source' = .error (.unmatchedClose n) ∨
      ∃ m < n, parse source' = .error (.tooDeep m maxDepth) := by
  obtain ⟨i, ⟨line, hi, hfault⟩, hsound⟩ := parse_eq_error_iff_faultAt.1 h
  obtain ⟨hun, hn⟩ := hfault.resolve_right (by simp)
  have htexts : (linesOf source').map (·.text) = (linesOf source).map (·.text) := by
    simpa [List.map_map, Function.comp_def] using congrArg (List.map Prod.snd) hl
  have hun' := (unmatchedAt_congr htexts i).2 hun
  obtain ⟨line', hi'⟩ := hun'.exists_line
  have hnum : line'.number = line.number := by
    have := congrArg (·[i]?) hl
    simp only [List.getElem?_map, hi, hi', Option.map_some, Option.some.injEq, Prod.mk.injEq] at this
    exact this.1
  by_cases hsound' : SoundBefore (linesOf source') i
  · refine .inl (parse_eq_error_iff_faultAt.2 ⟨i, ⟨line', hi', .inl ⟨hun', ?_⟩⟩, hsound'⟩)
    rw [hn, hnum]
  · -- a fault before it cannot be a bracket, since their texts are as they were
    obtain ⟨j, e, hji, hj, hfirst⟩ := exists_first_faultAt hsound'
    obtain ⟨lineJ, hlj, ⟨hunj, -⟩ | ⟨hdeep, rfl⟩⟩ := hj
    · exact absurd ((unmatchedAt_congr htexts j).1 hunj) (hsound j hji).1
    · have hlt : lineJ.number < line'.number := by
        have hp := pairwise_number_numbered 1 (Text.lines source')
        rw [← linesOf_eq_numbered] at hp
        obtain ⟨hjlt, rfl⟩ := List.getElem?_eq_some_iff.1 hlj
        obtain ⟨hilt, rfl⟩ := List.getElem?_eq_some_iff.1 hi'
        exact List.pairwise_iff_getElem.1 hp j i hjlt hilt hji
      rw [hnum, ← ParseError.unmatchedClose.inj hn] at hlt
      have hfault : FaultAt (linesOf source') j (.tooDeep lineJ.number maxDepth) :=
        ⟨lineJ, hlj, .inr ⟨hdeep, rfl⟩⟩
      exact .inr ⟨lineJ.number, hlt, parse_eq_error_iff_faultAt.2 ⟨j, hfault, hfirst⟩⟩

/-! ### All errors -/

theorem parse_eq_unmatchedClose_iff {source : Text} {n : Nat} :
    parse source = .error (.unmatchedClose n) ↔
      ∃ i line, (linesOf source)[i]? = some line ∧ line.number = n ∧
        UnmatchedAt (linesOf source) i ∧ SoundBefore (linesOf source) i := by
  rw [parse_eq_error_iff_faultAt]
  constructor
  · rintro ⟨i, ⟨line, hl, ⟨hun, he⟩ | ⟨-, he⟩⟩, hsound⟩
    · exact ⟨i, line, hl, (ParseError.unmatchedClose.inj he).symm, hun, hsound⟩
    · contradiction
  · rintro ⟨i, line, hl, rfl, hun, hsound⟩
    exact ⟨i, ⟨line, hl, .inl ⟨hun, rfl⟩⟩, hsound⟩

theorem parse_eq_tooDeep_iff {source : Text} {n limit : Nat} :
    parse source = .error (.tooDeep n limit) ↔
      limit = maxDepth ∧ ∃ i line, (linesOf source)[i]? = some line ∧ line.number = n ∧
        TooDeepAt (linesOf source) i ∧ SoundBefore (linesOf source) i := by
  rw [parse_eq_error_iff_faultAt]
  constructor
  · rintro ⟨i, ⟨line, hl, ⟨-, he⟩ | ⟨hdeep, he⟩⟩, hsound⟩
    · contradiction
    · obtain ⟨rfl, rfl⟩ := ParseError.tooDeep.inj he
      exact ⟨rfl, i, line, hl, rfl, hdeep, hsound⟩
  · rintro ⟨rfl, i, line, hl, rfl, hdeep, hsound⟩
    exact ⟨i, ⟨line, hl, .inr ⟨hdeep, rfl⟩⟩, hsound⟩

theorem parse_ne_invalidNesting (source : Text) (n : Nat) :
    parse source ≠ .error (.invalidNesting n) := by
  rw [ne_eq, parse_eq_error_iff_faultAt]
  rintro ⟨i, ⟨line, -, ⟨-, he⟩ | ⟨-, he⟩⟩, -⟩ <;> contradiction

/-- A source without a fault has a tree, and only such a source. -/
theorem exists_parse_eq_ok_iff {source : Text} :
    (∃ t, parse source = .ok t) ↔ ∀ i, SoundBefore (linesOf source) i := by
  constructor
  · rintro ⟨t, ht⟩ i
    by_contra hno
    obtain ⟨j, e, -, hj, hfirst⟩ := exists_first_faultAt hno
    rw [parse_eq_error_iff_faultAt.2 ⟨j, hj, hfirst⟩] at ht
    contradiction
  · intro hsound
    cases hp : parse source with
    | ok t => exact ⟨t, rfl⟩
    | error e =>
      obtain ⟨i, hi, -⟩ := parse_eq_error_iff_faultAt.1 hp
      exact absurd hi (soundBefore_iff.1 (hsound (i + 1)) i (Nat.lt_succ_self i) e)

/-- The errors of a source are told from its lines alone. -/
structure FaultsReported (source : Text) : Prop where
  /-- The raw lines are what stands between CRLF, CR and LF, two spaces in front are one indent, and
  the text is without white space around it. -/
  rawLines_iff : ∀ raws, Text.lines source = raws ↔ Text.Lined source raws
  indentOf_eq : ∀ k (rest : Text), rest.head? ≠ some ' ' →
    indentOf (List.replicate k ' ' ++ rest) = k / 2
  trim_iff : ∀ raw text : Text, raw.trim = text ↔ text.Trimmed ∧ ∃ before after,
    (∀ c ∈ before, blank c = true) ∧ (∀ c ∈ after, blank c = true) ∧
      raw = before ++ text ++ after
  /-- The lines are the raw lines that are not blank, each with its number counted from one. -/
  mem_lines_iff : ∀ line, line ∈ linesOf source ↔
    ∃ n raw, (Text.lines source)[n]? = some raw ∧ raw.isBlank = false ∧
      line = ⟨1 + n, indentOf raw, raw.trim⟩
  /-- They stand in the order of their numbers. -/
  pairwise_number : (linesOf source).Pairwise (·.number < ·.number)
  unmatchedClose_iff : ∀ n, parse source = .error (.unmatchedClose n) ↔
    ∃ i line, (linesOf source)[i]? = some line ∧ line.number = n ∧
      UnmatchedAt (linesOf source) i ∧ SoundBefore (linesOf source) i
  tooDeep_iff : ∀ n limit, parse source = .error (.tooDeep n limit) ↔
    limit = 48 ∧ ∃ i line, (linesOf source)[i]? = some line ∧ line.number = n ∧
      TooDeepAt (linesOf source) i ∧ SoundBefore (linesOf source) i
  ne_invalidNesting : ∀ n, parse source ≠ .error (.invalidNesting n)
  /-- Without a fault there is a tree. -/
  ok_iff : (∃ t, parse source = .ok t) ↔ ∀ i, SoundBefore (linesOf source) i
  /-- Other indents may make a line too deep, but they leave no closing bracket matched that was
  unmatched. -/
  unmatchedClose_of_texts : ∀ source' n,
    (linesOf source').map (fun line => (line.number, line.text)) =
        (linesOf source).map (fun line => (line.number, line.text)) →
      parse source = .error (.unmatchedClose n) →
        parse source' = .error (.unmatchedClose n) ∨
          ∃ m < n, parse source' = .error (.tooDeep m 48)
  /-- An error at a line is an error of every source that begins with the same lines up to it. -/
  error_of_take : ∀ source' e,
    (Text.lines source').take e.line = (Text.lines source).take e.line →
      (parse source' = .error e ↔ parse source = .error e)

theorem faultsReported (source : Text) : FaultsReported source where
  rawLines_iff _ := Text.lines_eq_iff
  indentOf_eq k _ h := indentOf_spaces h k
  trim_iff _ _ := Text.trim_eq_iff
  mem_lines_iff _ := mem_numbered_iff
  pairwise_number := pairwise_number_numbered 1 _
  unmatchedClose_iff _ := parse_eq_unmatchedClose_iff
  tooDeep_iff _ _ := parse_eq_tooDeep_iff
  ne_invalidNesting := parse_ne_invalidNesting source
  ok_iff := exists_parse_eq_ok_iff
  unmatchedClose_of_texts _ _ := parse_eq_unmatchedClose_of_texts
  error_of_take _ e ht := by
    rw [parse_eq_error_iff_take (Nat.le_refl e.line), ht,
      ← parse_eq_error_iff_take (Nat.le_refl e.line)]

/-- The second bracket closes the group past the section, so the third is unmatched, however far in
it stands and whatever follows it. -/
theorem faultsReported_sample :
    linesOf "[\r\n=a\r  ]\n\n    ] ".toList =
        [⟨1, 0, ['[']⟩, ⟨2, 0, "=a".toList⟩, ⟨3, 1, [']']⟩, ⟨5, 2, [']']⟩] ∧
      parse "[\r\n=a\r  ]\n\n    ] ".toList = .error (.unmatchedClose 5) ∧
      parse "[\r\n=a\r  ]\n\n    ] \r\n]\r[".toList = .error (.unmatchedClose 5) := by
  have hparse : parse "[\r\n=a\r  ]\n\n    ] ".toList = .error (.unmatchedClose 5) := by rfl
  exact ⟨by rfl, hparse, ((faultsReported _).error_of_take _ (.unmatchedClose 5) (by rfl)).2 hparse⟩

end Wireframe.Source
