import Wireframe.File.Rendering

/-! Files that hold sources. A file is rendered as its tree if it can be read as text that parses
(`renderFile_of_holdsSource`), and otherwise the error is about its path
(`renderFile_of_not_holdsSource`). -/

namespace Wireframe

/-- The bytes are a text that parses as a tree. -/
def Source.Encoded (bytes : ByteArray) (t : Node) : Prop :=
  ∃ source, Text.decode bytes = .ok source ∧ Source.parse source = .ok t

/-- The file at a path can be read, and is the source of a tree. -/
def HoldsSource (read : Text → Except Fault ByteArray) (path : Text) (t : Node) : Prop :=
  ∃ bytes, read path = .ok bytes ∧ Source.Encoded bytes t

theorem Text.decode_encode (t : Text) : Text.decode (Text.encode t) = .ok t := by
  have hvalid : (String.ofList t).toUTF8.IsValidUTF8 := (String.ofList t).isValidUTF8
  have h : String.fromUTF8? (String.ofList t).toUTF8 = some (String.ofList t) := by
    rw [String.fromUTF8?, dif_pos hvalid]
    rfl
  rw [decode, encode, h]
  exact congrArg Except.ok String.toList_ofList

theorem Source.encoded_encode {source : Text} {t : Node} (h : Source.parse source = .ok t) :
    Source.Encoded (Text.encode source) t :=
  ⟨source, Text.decode_encode source, h⟩

variable {read : Text → Except Fault ByteArray}

theorem Source.render_of_parse (options : Options) {source : Text} {t : Node}
    (h : Source.parse source = .ok t) :
    Source.render options source = .ok (t.render options) := by
  rw [Source.render, h]
  rfl

theorem renderFile_of_holdsSource (options : Options) {path : Text} {t : Node}
    (h : HoldsSource read path t) :
    renderFile options read path = .ok (t.render options) := by
  obtain ⟨bytes, hread, source, hdecode, hparse⟩ := h
  have hsource : (read path).bind Text.decode = .ok source := by
    rw [hread]
    exact hdecode
  simp only [renderFile, hsource, Source.render_of_parse options hparse]
  rfl

/-- A file that is no source is what the error is about. -/
theorem renderFile_of_not_holdsSource (options : Options) {path : Text}
    (h : ∀ t, ¬ HoldsSource read path t) :
    ∃ e, renderFile options read path = .error e ∧ e.path = path := by
  cases hsource : (read path).bind Text.decode with
  | error fault => exact ⟨.unreadable path fault, by simp only [renderFile, hsource], rfl⟩
  | ok source =>
    cases hparse : Source.parse source with
    | error e =>
      refine ⟨.invalid path e, ?_, rfl⟩
      simp only [renderFile, hsource, Source.render, hparse]
      rfl
    | ok t =>
      cases hread : read path with
      | error fault =>
        rw [hread] at hsource
        contradiction
      | ok bytes =>
        rw [hread] at hsource
        exact absurd ⟨bytes, hread, source, hsource, hparse⟩ (h t)

end Wireframe
