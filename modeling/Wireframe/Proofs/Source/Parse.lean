import Mathlib.Tactic.SplitIfs
import Wireframe.Proofs.Source.Outline
import Wireframe.Source.Parse

/-! What one line does to the open scopes, and what follows for whole sources. A line
that is placed either closes the innermost group or is an item, which drops the
sections it ends and may open a scope of its own (`place_eq_ok`). The outline of a
source is nested, so a tree is the tree of a source exactly when the lines of the
source have its outline (`parse_eq_ok_iff`). -/

namespace Wireframe.Source

open Node Outline

/-! ### Forms of lines -/

theorem read_eq_close_iff {text : Text} : Form.read text = .close ↔ text = [']'] := by
  unfold Form.read
  split_ifs with h1 h2 h3 <;> simp [h1]

theorem read_eq_group_iff {text : Text} : Form.read text = .item .group ↔ text = ['['] := by
  unfold Form.read
  split_ifs with h1 h2 h3 <;> simp_all

theorem read_eq_sect_iff {text name : Text} {ratio : Option Ratio} :
    Form.read text = .item (.sect name ratio) ↔
      text.head? = some '=' ∧ readHeader text = (name, ratio) := by
  unfold Form.read
  split_ifs with h1 h2 h3
  · simp [h1]
  · simp [h2]
  · simp [h3, Prod.ext_iff]
  · simp [h3]

theorem read_eq_row_iff {text row : Text} :
    Form.read text = .item (.row row) ↔
      row = text ∧ text ≠ [']'] ∧ text ≠ ['['] ∧ text.head? ≠ some '=' := by
  unfold Form.read
  split_ifs with h1 h2 h3
  · simp [h1]
  · simp [h2]
  · simp [h3]
  · simp [h1, h2, h3, eq_comm]

theorem read_ne_root (text : Text) : Form.read text ≠ .item .root := by
  unfold Form.read
  split_ifs <;> simp

/-! ### One line -/

/-- What a line that is placed does. -/
theorem place_eq_ok {scopes scopes' : List Scope} {line : Line} {entry : Option Entry}
    (h : place scopes line = .ok (scopes', entry)) :
    (line.form = .close ∧ closeGroup? scopes = some scopes' ∧ entry = none) ∨
      ∃ item outer, line.form = .item item ∧ outer = scopes.dropWhile (Scope.endsAt line.indent) ∧
        (scopeOf? line.indent item ≠ none → outer.length < maxDepth) ∧
        scopes' = (scopeOf? line.indent item).toList ++ outer ∧
        entry = some ⟨outer.length, item⟩ := by
  unfold place at h
  split at h
  · next hf =>
    split at h
    · next outer hc =>
      obtain ⟨rfl, rfl⟩ := Prod.mk.inj (Except.ok.inj h)
      exact .inl ⟨hf, hc, rfl⟩
    · contradiction
  · next item hf =>
    refine .inr ⟨item, _, hf, rfl, ?_⟩
    dsimp only at h
    split at h
    · next hs =>
      obtain ⟨rfl, rfl⟩ := Prod.mk.inj (Except.ok.inj h)
      simp [hs]
    · next scope hs =>
      split at h
      · contradiction
      · next hd =>
        obtain ⟨rfl, rfl⟩ := Prod.mk.inj (Except.ok.inj h)
        exact ⟨fun _ => Nat.lt_of_not_le hd, by rw [hs]; rfl, rfl⟩

theorem place_of_item {scopes : List Scope} {line : Line} {item : Item}
    (hf : line.form = .item item)
    (hd : scopeOf? line.indent item ≠ none →
      (scopes.dropWhile (Scope.endsAt line.indent)).length < maxDepth) :
    place scopes line =
      .ok ((scopeOf? line.indent item).toList ++ scopes.dropWhile (Scope.endsAt line.indent),
        some ⟨(scopes.dropWhile (Scope.endsAt line.indent)).length, item⟩) := by
  unfold place
  rw [hf]
  dsimp only
  cases hs : scopeOf? line.indent item with
  | none => rfl
  | some scope =>
    have hlt := hd (by simp [hs])
    dsimp only
    rw [if_neg (Nat.not_le_of_lt hlt)]
    rfl

theorem length_closeGroup? {scopes outer : List Scope} (h : closeGroup? scopes = some outer) :
    outer.length < scopes.length := by
  induction scopes with
  | nil => contradiction
  | cons scope scopes ih =>
    cases scope with
    | group =>
      obtain rfl := Option.some.inj h
      simp
    | sect own =>
      have := ih h
      rw [List.length_cons]
      omega

/-! ### All lines -/

theorem outline_cons_eq_ok {scopes : List Scope} {line : Line} {lines : List Line} {o : Outline}
    (h : outline scopes (line :: lines) = .ok o) :
    ∃ scopes' entry more, place scopes line = .ok (scopes', entry) ∧
      outline scopes' lines = .ok more ∧ o = entry.toList ++ more := by
  rw [outline] at h
  split at h
  · contradiction
  · next scopes' entry hp =>
    cases hm : outline scopes' lines with
    | error e =>
      rw [hm] at h
      contradiction
    | ok more =>
      rw [hm] at h
      exact ⟨scopes', entry, more, hp, hm, (Except.ok.inj h).symm⟩

theorem outline_cons_of_place {scopes scopes' : List Scope} {line : Line} {entry : Option Entry}
    (h : place scopes line = .ok (scopes', entry)) (lines : List Line) :
    outline scopes (line :: lines) = (outline scopes' lines).map (entry.toList ++ ·) := by
  rw [outline, h]

theorem length_scopeOf?_le (indent depth : Nat) (item : Item) :
    (scopeOf? indent item).toList.length + depth ≤ item.inner depth := by
  cases item <;> simp [scopeOf?, Item.inner, Nat.add_comm]

/-- No entry of the outline of a source lies deeper than the scopes open at it. -/
theorem nested_of_outline {scopes : List Scope} {lines : List Line} {o : Outline}
    (h : outline scopes lines = .ok o) : Nested scopes.length o := by
  induction lines generalizing scopes o with
  | nil =>
    obtain rfl := Except.ok.inj h
    trivial
  | cons line lines ih =>
    obtain ⟨scopes', entry, more, hp, hm, rfl⟩ := outline_cons_eq_ok h
    rcases place_eq_ok hp with ⟨-, hc, rfl⟩ | ⟨item, outer, -, ho, -, rfl, rfl⟩
    · exact (ih hm).mono (Nat.le_of_lt (length_closeGroup? hc))
    · constructor
      · rw [ho]
        exact (List.dropWhile_sublist _).length_le
      · refine (ih hm).mono ?_
        rw [List.length_append]
        exact length_scopeOf?_le line.indent outer.length item

/-- A tree is the tree of a source exactly when it is a root and the lines have its outline. -/
theorem parse_eq_ok_iff {source : Text} {t : Node} :
    parse source = .ok t ↔
      ∃ ts, t = .root ts ∧ outline [] (linesOf source) = .ok (outlineAll 0 ts) := by
  unfold parse
  constructor
  · intro h
    cases ho : outline [] (linesOf source) with
    | error e =>
      rw [ho] at h
      contradiction
    | ok o =>
      rw [ho] at h
      refine ⟨o.forest, (Except.ok.inj h).symm, ?_⟩
      rw [outlineAll_forest (nested_of_outline ho)]
  · rintro ⟨ts, rfl, ho⟩
    rw [ho]
    change Except.ok (Node.root (forest (outlineAll 0 ts))) = _
    rw [forest_outlineAll]

end Wireframe.Source
