import Wireframe.Proofs.Text.Trim
import Wireframe.Source.Line

/-! Numbered lines. The lines of a source are its raw lines that are not blank, each with
the number it has among all raw lines (`mem_numbered_iff`), so the numbers grow from
line to line. -/

namespace Wireframe.Source

/-- A line is indented by the pairs of spaces before its text. -/
theorem indentOf_spaces {rest : Text} (h : rest.head? ≠ some ' ') (k : Nat) :
    indentOf (List.replicate k ' ' ++ rest) = k / 2 := by
  have hspace : ∀ c ∈ List.replicate k ' ', decide (c = ' ') = true :=
    fun c hc => decide_eq_true (List.eq_of_mem_replicate hc)
  have hrest : rest.takeWhile (· = ' ') = [] := by
    cases rest with
    | nil => rfl
    | cons c rest => simpa using h
  rw [indentOf, List.takeWhile_append_of_pos hspace, hrest, List.append_nil, List.length_replicate]

/-- The lines of some raw lines that are numbered from `k`. -/
def numbered (k : Nat) (raws : List Text) : List Line :=
  (raws.zipIdx k).filterMap fun (raw, number) => Line.read? number raw

theorem numbered_cons (k : Nat) (raw : Text) (raws : List Text) :
    numbered k (raw :: raws) = (Line.read? k raw).toList ++ numbered (k + 1) raws := by
  unfold numbered
  rw [List.zipIdx_cons, List.filterMap_cons]
  dsimp only
  cases Line.read? k raw <;> rfl

theorem numbered_append (k : Nat) (raws more : List Text) :
    numbered k (raws ++ more) = numbered k raws ++ numbered (k + raws.length) more := by
  unfold numbered
  rw [List.zipIdx_append, List.filterMap_append]

theorem numbered_cons_of_trim {raw : Text} (h : raw.trim ≠ []) (k : Nat) (raws : List Text) :
    numbered k (raw :: raws) = ⟨k, indentOf raw, raw.trim⟩ :: numbered (k + 1) raws := by
  rw [numbered_cons, Line.read?, Text.isBlank_of_trim_ne_nil h]
  rfl

theorem length_numbered (k : Nat) (raws : List Text) :
    (numbered k raws).length = raws.countP (! ·.isBlank) := by
  induction raws generalizing k with
  | nil => rfl
  | cons raw raws ih =>
    rw [numbered_cons, List.length_append, ih, List.countP_cons, Line.read?, Nat.add_comm]
    cases raw.isBlank <;> rfl

theorem linesOf_eq_numbered (source : Text) : linesOf source = numbered 1 (Text.lines source) := rfl

theorem read?_eq_some_iff {number : Nat} {raw : Text} {line : Line} :
    Line.read? number raw = some line ↔
      raw.isBlank = false ∧ line = ⟨number, indentOf raw, raw.trim⟩ := by
  unfold Line.read?
  cases raw.isBlank <;> simp [eq_comm]

theorem mem_numbered_iff {k : Nat} {raws : List Text} {line : Line} :
    line ∈ numbered k raws ↔
      ∃ n raw, raws[n]? = some raw ∧ raw.isBlank = false ∧
        line = ⟨k + n, indentOf raw, raw.trim⟩ := by
  induction raws generalizing k with
  | nil => simp [numbered]
  | cons raw raws ih =>
    rw [numbered_cons, List.mem_append, Option.mem_toList, ih, read?_eq_some_iff]
    constructor
    · rintro (⟨hb, rfl⟩ | ⟨n, raw', hn, hb, rfl⟩)
      · exact ⟨0, raw, rfl, hb, rfl⟩
      · exact ⟨n + 1, raw', hn, hb, by rw [Nat.add_right_comm, Nat.add_assoc]⟩
    · rintro ⟨_ | n, raw', hn, hb, rfl⟩
      · obtain rfl := Option.some.inj hn
        exact .inl ⟨hb, rfl⟩
      · exact .inr ⟨n, raw', hn, hb, by rw [Nat.add_right_comm, Nat.add_assoc]⟩

theorem le_number_of_mem_numbered {k : Nat} {raws : List Text} {line : Line}
    (h : line ∈ numbered k raws) : k ≤ line.number := by
  obtain ⟨n, raw, -, -, rfl⟩ := mem_numbered_iff.1 h
  exact Nat.le_add_right k n

/-- Each line has a greater number than those before it. -/
theorem pairwise_number_numbered (k : Nat) (raws : List Text) :
    (numbered k raws).Pairwise (·.number < ·.number) := by
  induction raws generalizing k with
  | nil => exact List.Pairwise.nil
  | cons raw raws ih =>
    rw [numbered_cons, List.pairwise_append]
    refine ⟨?_, ih (k + 1), fun first hf later hl => ?_⟩
    · cases Line.read? k raw <;> simp
    · obtain ⟨-, rfl⟩ := read?_eq_some_iff.1 (Option.mem_toList.1 hf)
      exact le_number_of_mem_numbered hl

end Wireframe.Source
