import Wireframe.Proofs.Source.Parse

/-! The order of the lines. Read on its own, a line that is neither blank nor a closing
bracket is one item (`itemOf?`). Sections and groups are closed long after the lines
that open them, but each entry of the outline is made by its own line, so the items of
a tree stand in the order of the lines of its source, each of them once
(`items_of_parse`). -/

namespace Wireframe.Source

open Node Outline

/-- The item that a line makes. -/
def Form.item? : Form → Option Item
  | .close => none
  | .item made => some made

/-- The item of a line of the source as it stands there, read on its own. -/
def itemOf? (raw : Text) : Option Item :=
  if raw.isBlank then none else (Form.read raw.trim).item?

theorem isSome_item?_read (text : Text) :
    (Form.read text).item?.isSome = decide (text ≠ [']']) := by
  cases hf : Form.read text with
  | close => simp [Form.item?, read_eq_close_iff.1 hf]
  | item item =>
    have hne : text ≠ [']'] := by
      rintro rfl
      contradiction
    simp [Form.item?, hne]

theorem isSome_itemOf? (raw : Text) :
    (itemOf? raw).isSome = (! raw.isBlank && decide (raw.trim ≠ [']'])) := by
  unfold itemOf?
  cases raw.isBlank with
  | true => rfl
  | false => simp [isSome_item?_read]

theorem itemOf?_ne_root (raw : Text) : itemOf? raw ≠ some .root := by
  intro h
  unfold itemOf? at h
  split at h
  · contradiction
  · cases hf : Form.read raw.trim with
    | close => simp [hf, Form.item?] at h
    | item item =>
      rw [hf, Form.item?, Option.some.injEq] at h
      exact read_ne_root raw.trim (h ▸ hf)

theorem filterMap_item?_linesOf (source : Text) :
    (linesOf source).filterMap (·.form.item?) = (Text.lines source).filterMap itemOf? := by
  have hread : ∀ x : Text × Nat,
      (Line.read? x.2 x.1).bind (·.form.item?) = itemOf? x.1 := by
    rintro ⟨raw, number⟩
    cases hb : raw.isBlank <;> simp [Line.read?, itemOf?, Line.form, hb]
  calc (linesOf source).filterMap (·.form.item?)
      = ((Text.lines source).zipIdx 1).filterMap
          fun x => (Line.read? x.2 x.1).bind (·.form.item?) := List.filterMap_filterMap
    _ = ((Text.lines source).zipIdx 1).filterMap (itemOf? ∘ Prod.fst) := by
          simp only [hread]
          rfl
    _ = (Text.lines source).filterMap itemOf? := by
          rw [← List.filterMap_map, List.zipIdx_map_fst]

/-- Every line but a closing bracket makes one entry, and the entries stand in the order of the
lines. -/
theorem map_item_of_outline {scopes : List Scope} {lines : List Line} {o : Outline}
    (h : outline scopes lines = .ok o) : o.map (·.item) = lines.filterMap (·.form.item?) := by
  induction lines generalizing scopes o with
  | nil =>
    obtain rfl := Except.ok.inj h
    rfl
  | cons line lines ih =>
    obtain ⟨scopes', entry, more, hp, hm, rfl⟩ := outline_cons_eq_ok h
    rw [List.map_append, ih hm]
    rcases place_eq_ok hp with ⟨hf, -, rfl⟩ | ⟨item, outer, hf, -, -, -, rfl⟩
    · simp [hf, Form.item?]
    · simp [hf, Form.item?]

/-- The items of the tree of a source are the root and then those of the lines, in their order. -/
theorem items_of_parse {source : Text} {t : Node} (h : parse source = .ok t) :
    t.items = .root :: (Text.lines source).filterMap itemOf? ∧
      .root ∉ (Text.lines source).filterMap itemOf? ∧
      t.count =
        1 + (Text.lines source).countP fun raw => ! raw.isBlank && decide (raw.trim ≠ [']']) := by
  obtain ⟨ts, rfl, ho⟩ := parse_eq_ok_iff.1 h
  have hitems : (Node.root ts).items = .root :: (Text.lines source).filterMap itemOf? := by
    rw [items, ← map_item_outlineAll 0, map_item_of_outline ho, filterMap_item?_linesOf]
  refine ⟨hitems, ?_, ?_⟩
  · rw [List.mem_filterMap]
    rintro ⟨raw, -, hr⟩
    exact itemOf?_ne_root raw hr
  · rw [← length_items, hitems, List.length_cons, List.length_filterMap_eq_countP]
    simp only [isSome_itemOf?]
    exact Nat.add_comm _ _

/-- Two sections are closed by the line that follows them, a group and its section by a bracket. -/
theorem items_of_parse_sample :
    parse "=a\r\n  =b 1/2\r\n x\n\n[\n  =c\n    y\n  ] \nz".toList =
        .ok (.root [.sect "a".toList none [.sect "b".toList (some ⟨1, 2⟩) []], .row "x".toList,
          .group [.sect "c".toList none [.row "y".toList]], .row "z".toList]) ∧
      (Node.root [.sect "a".toList none [.sect "b".toList (some ⟨1, 2⟩) []], .row "x".toList,
          .group [.sect "c".toList none [.row "y".toList]], .row "z".toList]).items =
        [.root, .sect "a".toList none, .sect "b".toList (some ⟨1, 2⟩), .row "x".toList, .group,
          .sect "c".toList none, .row "y".toList, .row "z".toList] := by
  have h : parse "=a\r\n  =b 1/2\r\n x\n\n[\n  =c\n    y\n  ] \nz".toList =
      .ok (.root [.sect "a".toList none [.sect "b".toList (some ⟨1, 2⟩) []], .row "x".toList,
        .group [.sect "c".toList none [.row "y".toList]], .row "z".toList]) := by rfl
  exact ⟨h, (items_of_parse h).1.trans (by rfl)⟩

end Wireframe.Source
