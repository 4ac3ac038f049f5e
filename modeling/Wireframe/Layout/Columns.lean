import Wireframe.Node
import Wireframe.Width.Text

/-!
Columns. The children of a group stand side by side, three columns apart. A child with a ratio gets
its share of the width and any other an even part, but none less than eighteen columns. What is then
missing from the width is given to one column after another, and what is too much is taken from one
column after another until the next in turn has no more to give (`columnWidths`). Each child's lines
are padded to its column and joined (`joinColumns`). The main statements: there is a width for every
child, none below the floor (`length_columnWidths`, `columnFloor_le_of_mem`).
-/

namespace Wireframe.Layout

/-- The least width of a column. -/
def columnFloor : Nat := 18

/-- The columns between neighbours. -/
def columnGap : Nat := 3

/-! ### Widths -/

/-- The sum of the ratios, from the first to the last. -/
def ratioSum (ratios : List (Option Ratio)) : Float :=
  (ratios.filterMap (·.map Ratio.value)).foldl (· + ·) 0.0

/-- An even part of the width. -/
def evenShare (count total : Nat) : Nat := max (total / count) columnFloor

/-- The width that a child asks for, rounded down. -/
def share (sum : Float) (even total : Nat) : Option Ratio → Nat
  | none => even
  | some r =>
    if sum > 0.0 then max (Float.ofNat total * (r.value / sum)).toUInt64.toNat columnFloor else even

/-- The widths that the children ask for. -/
def shares (ratios : List (Option Ratio)) (total : Nat) : List Nat :=
  ratios.map (share (ratioSum ratios) (evenShare ratios.length total) total)

/-- The width of all columns with the gaps between them. -/
def spread (widths : List Nat) : Nat :=
  widths.foldr (· + ·) 0 + columnGap * (widths.length - 1)

/-- Widens one column after another by one until nothing is missing. -/
def widen : (missing : Nat) → List Nat → List Nat
  | 0, widths => widths
  | missing + 1, widths =>
    widen missing (widths.modify ((missing + 1) % widths.length) (· + 1))

/-- Narrows one column after another by one until nothing is too much or the next is at the
floor. -/
def narrow : (excess : Nat) → List Nat → List Nat
  | 0, widths => widths
  | excess + 1, widths =>
    let next := (excess + 1) % widths.length
    if widths.getD next 0 ≤ columnFloor then widths
    else narrow excess (widths.modify next (· - 1))

/-- The widths of the columns of a group. -/
def columnWidths (ratios : List (Option Ratio)) (total : Nat) : List Nat :=
  let widths := shares ratios total
  narrow (spread widths - total) (widen (total - spread widths) widths)

theorem length_widen (missing : Nat) (widths : List Nat) :
    (widen missing widths).length = widths.length := by
  induction missing generalizing widths with
  | zero => rfl
  | succ missing ih => rw [widen, ih, List.length_modify]

theorem length_narrow (excess : Nat) (widths : List Nat) :
    (narrow excess widths).length = widths.length := by
  induction excess generalizing widths with
  | zero => rfl
  | succ excess ih =>
    rw [narrow]
    split
    · rfl
    · rw [ih, List.length_modify]

theorem length_columnWidths (ratios : List (Option Ratio)) (total : Nat) :
    (columnWidths ratios total).length = ratios.length := by
  simp [columnWidths, length_narrow, length_widen, shares]

theorem columnFloor_le_share (sum : Float) {even total : Nat} (he : columnFloor ≤ even)
    (r : Option Ratio) : columnFloor ≤ share sum even total r := by
  cases r with
  | none => exact he
  | some r =>
    rw [share]
    split
    · exact Nat.le_max_right _ _
    · exact he

theorem columnFloor_le_of_mem_shares {ratios : List (Option Ratio)} {total w : Nat}
    (h : w ∈ shares ratios total) : columnFloor ≤ w := by
  obtain ⟨r, -, rfl⟩ := List.mem_map.1 h
  exact columnFloor_le_share _ (Nat.le_max_right _ _) r

theorem columnFloor_le_of_mem_modify {widths : List Nat} {i : Nat} {f : Nat → Nat}
    (h : ∀ w ∈ widths, columnFloor ≤ w) (hf : ∀ hi : i < widths.length, columnFloor ≤ f widths[i]) :
    ∀ w ∈ widths.modify i f, columnFloor ≤ w := by
  intro w hw
  obtain ⟨j, hj, rfl⟩ := List.getElem_of_mem hw
  rw [List.getElem_modify]
  rw [List.length_modify] at hj
  split
  · next he =>
    subst he
    exact hf hj
  · exact h _ (List.getElem_mem hj)

theorem columnFloor_le_of_mem_widen {missing : Nat} {widths : List Nat}
    (h : ∀ w ∈ widths, columnFloor ≤ w) : ∀ w ∈ widen missing widths, columnFloor ≤ w := by
  induction missing generalizing widths with
  | zero => exact h
  | succ missing ih =>
    exact ih (columnFloor_le_of_mem_modify h fun hi =>
      Nat.le_succ_of_le (h _ (List.getElem_mem hi)))

theorem columnFloor_le_of_mem_narrow {excess : Nat} {widths : List Nat}
    (h : ∀ w ∈ widths, columnFloor ≤ w) : ∀ w ∈ narrow excess widths, columnFloor ≤ w := by
  induction excess generalizing widths with
  | zero => exact h
  | succ excess ih =>
    rw [narrow]
    split
    · exact h
    · next hf =>
      refine ih (columnFloor_le_of_mem_modify h fun hi => ?_)
      rw [List.getD_eq_getElem?_getD, List.getElem?_eq_getElem hi, Option.getD_some] at hf
      omega

theorem columnFloor_le_of_mem {ratios : List (Option Ratio)} {total w : Nat}
    (h : w ∈ columnWidths ratios total) : columnFloor ≤ w :=
  columnFloor_le_of_mem_narrow
    (columnFloor_le_of_mem_widen fun _ hv => columnFloor_le_of_mem_shares hv) w h

/-! ### Joining -/

/-- The lines of blocks that stand side by side, as many as the tallest has. -/
def joinColumns (blocks : List (List Text)) (widths : List Nat) : List Text :=
  let height := (blocks.map List.length).foldr max 0
  (List.range height).map fun row =>
    let cells := List.zipWith (fun block width => Text.pad width (block.getD row [])) blocks widths
    Text.trimEnd (Text.join (List.replicate columnGap ' ') cells)

end Wireframe.Layout
