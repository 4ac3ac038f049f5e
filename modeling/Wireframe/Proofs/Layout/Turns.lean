import Mathlib.Data.Nat.Count
import Wireframe.Layout.Columns

/-! Turns at giving width away. What the columns of a group have too much is counted down to zero,
and each number on the way is the turn of the column whose index it leaves as the remainder by the
number of columns (`turns`). The columns give one each until the next in turn is at the floor
(`StopsAt`). So the columns take exactly the width of the group if every column is
asked for the floor and its turns, and only then; otherwise the group is too wide, though
another column could give more (`spread_columnWidths`). -/

namespace Wireframe.Layout

/-! ### Sums -/

theorem sum_modify {ws : List Nat} {i : Nat} (hi : i < ws.length) (f : Nat → Nat) :
    (ws.modify i f).foldr (· + ·) 0 + ws[i] = ws.foldr (· + ·) 0 + f ws[i] := by
  induction ws generalizing i with
  | nil => contradiction
  | cons w ws ih =>
    cases i with
    | zero =>
      simp only [List.modify_zero_cons, List.foldr_cons, List.getElem_cons_zero]
      omega
    | succ i =>
      have := ih (Nat.lt_of_succ_lt_succ hi)
      simp only [List.modify_succ_cons, List.foldr_cons, List.getElem_cons_succ]
      omega

theorem spread_modify {ws : List Nat} {i : Nat} (hi : i < ws.length) (f : Nat → Nat) :
    spread (ws.modify i f) + ws[i] = spread ws + f ws[i] := by
  have := sum_modify hi f
  rw [spread, spread, List.length_modify]
  omega

theorem sum_le_of_forall_le {bound : Nat} {ws : List Nat} (h : ∀ w ∈ ws, w ≤ bound) :
    ws.foldr (· + ·) 0 ≤ bound * ws.length := by
  induction ws with
  | nil => exact Nat.zero_le _
  | cons w ws ih =>
    obtain ⟨hw, hws⟩ := List.forall_mem_cons.1 h
    have := ih hws
    rw [List.foldr_cons, List.length_cons, Nat.mul_succ]
    omega

theorem getD_modify {ws : List Nat} {i : Nat} (hi : i < ws.length) (f : Nat → Nat) (j : Nat) :
    (ws.modify i f).getD j 0 = if i = j then f (ws.getD j 0) else ws.getD j 0 := by
  rw [List.getD_eq_getElem?_getD, List.getElem?_modify, List.getD_eq_getElem?_getD]
  split
  · next h =>
    subst h
    rw [List.getElem?_eq_getElem hi]
    rfl
  · cases ws[j]? <;> rfl

/-! ### Widening -/

/-- Nothing is missing in the end. -/
theorem spread_widen {ws : List Nat} (hne : ws ≠ []) (missing : Nat) :
    spread (widen missing ws) = spread ws + missing := by
  induction missing generalizing ws with
  | zero => rfl
  | succ missing ih =>
    have hnext : (missing + 1) % ws.length < ws.length := Nat.mod_lt _ (List.length_pos_iff.2 hne)
    have hmodify := spread_modify hnext (· + 1)
    have hlength : (ws.modify ((missing + 1) % ws.length) (· + 1)).length = ws.length :=
      List.length_modify ..
    rw [widen, ih (List.ne_nil_of_length_pos (by omega))]
    omega

/-! ### Narrowing -/

theorem columnFloor_le_getD {ws : List Nat} (h : ∀ w ∈ ws, columnFloor ≤ w) {i : Nat}
    (hi : i < ws.length) : columnFloor ≤ ws.getD i 0 := by
  have hwidth : ws[i] = ws.getD i 0 := List.getElem_eq_getD 0
  exact hwidth ▸ h _ (List.getElem_mem hi)

/-- How often it is a column's turn while a number of steps is counted down to zero. -/
def turns (columns steps i : Nat) : Nat := Nat.count (fun k => (k + 1) % columns = i) steps

theorem turns_succ (columns steps i : Nat) : turns columns (steps + 1) i =
    turns columns steps i + if (steps + 1) % columns = i then 1 else 0 :=
  Nat.count_succ ..

/-- The next step is a turn of the column it is taken by. -/
theorem turns_pos {columns steps : Nat} (h : steps ≠ 0) :
    0 < turns columns steps (steps % columns) := by
  obtain ⟨steps, rfl⟩ := Nat.exists_eq_succ_of_ne_zero h
  rw [turns_succ, if_pos rfl]
  exact Nat.succ_pos _

/-- The narrowing of columns stops when some of the excess is left: each column has given one for
each of its turns so far, and if there is any excess left, the next in turn is at the floor. -/
structure StopsAt (excess : Nat) (ws : List Nat) (left : Nat) : Prop where
  spread_eq : spread (narrow excess ws) + excess = spread ws + left
  getD_eq : ∀ i, (narrow excess ws).getD i 0 + turns ws.length excess i =
    ws.getD i 0 + turns ws.length left i
  floor : left ≠ 0 → (narrow excess ws).getD (left % ws.length) 0 = columnFloor

section

variable {ws : List Nat} {excess : Nat}

/-- No column gives anything if the next in turn is at the floor. -/
theorem stopsAt_of_floor (h : ws.getD ((excess + 1) % ws.length) 0 = columnFloor) :
    StopsAt (excess + 1) ws (excess + 1) := by
  have hnarrow : narrow (excess + 1) ws = ws := by rw [narrow, if_pos (Nat.le_of_eq h)]
  refine ⟨?_, fun i => ?_, fun _ => ?_⟩
  · rw [hnarrow]
  · rw [hnarrow]
  · rw [hnarrow, h]

/-- The next column gives one, and the columns go on with the rest of the excess. -/
theorem StopsAt.step {left : Nat} (hnext : (excess + 1) % ws.length < ws.length)
    (h : columnFloor < ws.getD ((excess + 1) % ws.length) 0)
    (hs : StopsAt excess (ws.modify ((excess + 1) % ws.length) (· - 1)) left) :
    StopsAt (excess + 1) ws left := by
  have hnarrow : narrow (excess + 1) ws =
      narrow excess (ws.modify ((excess + 1) % ws.length) (· - 1)) := by
    rw [narrow, if_neg (Nat.not_le.2 h)]
  obtain ⟨hspread, hgives, hfloor⟩ := hs
  rw [← hnarrow] at hspread hgives hfloor
  rw [List.length_modify] at hgives hfloor
  refine ⟨?_, fun i => ?_, hfloor⟩
  · have hone := spread_modify hnext (· - 1)
    rw [← List.getElem_eq_getD (h := hnext)] at h
    omega
  · have hi := hgives i
    rw [getD_modify hnext] at hi
    rw [turns_succ]
    split at hi
    · next he =>
      subst he
      rw [if_pos rfl]
      omega
    · next he =>
      rw [if_neg he]
      omega

theorem exists_stopsAt (hne : ws ≠ []) (h : ∀ w ∈ ws, columnFloor ≤ w) (excess : Nat) :
    ∃ left, StopsAt excess ws left := by
  induction excess generalizing ws with
  | zero => exact ⟨0, rfl, fun _ => rfl, fun h => absurd rfl h⟩
  | succ excess ih =>
    have hnext : (excess + 1) % ws.length < ws.length := Nat.mod_lt _ (List.length_pos_iff.2 hne)
    -- no column is ever below the floor, so the next in turn is at it or has one to give
    have hwidth := columnFloor_le_getD h hnext
    rcases Nat.eq_or_lt_of_le hwidth with hfloor | hmore
    · exact ⟨excess + 1, stopsAt_of_floor hfloor.symm⟩
    · have hrest : ∀ w ∈ ws.modify ((excess + 1) % ws.length) (· - 1), columnFloor ≤ w := by
        refine columnFloor_le_of_mem_modify h fun hi => Nat.le_sub_one_of_lt ?_
        rwa [List.getElem_eq_getD 0]
      obtain ⟨left, hleft⟩ := ih (by simpa using hne) hrest
      exact ⟨left, hleft.step hnext hmore⟩

end

/-- Nothing is left of the excess if every column has room for its turns, and only then. -/
theorem StopsAt.left_eq_zero_iff {excess left : Nat} {ws : List Nat} (hs : StopsAt excess ws left)
    (hne : ws ≠ []) (h : ∀ w ∈ ws, columnFloor ≤ w) :
    left = 0 ↔ ∀ i < ws.length, columnFloor + turns ws.length excess i ≤ ws.getD i 0 := by
  constructor
  · rintro rfl i hi
    have hnarrow : columnFloor ≤ (narrow excess ws).getD i 0 :=
      columnFloor_le_getD (columnFloor_le_of_mem_narrow h)
        (hi.trans_eq (length_narrow excess ws).symm)
    have hgives := hs.getD_eq i
    rw [show turns ws.length 0 i = 0 from rfl] at hgives
    omega
  · -- else the next in turn is at the floor and has a turn to come, for which there is no room
    intro hroom
    by_contra hl
    have hnext := hroom (left % ws.length) (Nat.mod_lt _ (List.length_pos_iff.2 hne))
    have hgives := hs.getD_eq (left % ws.length)
    have hturn : 0 < turns ws.length left (left % ws.length) := turns_pos hl
    rw [hs.floor hl] at hgives
    omega

/-! ### The widths of a group -/

/-- Columns that are too wide together are not all at the floor. -/
theorem exists_lt_of_lt_spread {ws : List Nat}
    (h : columnFloor * ws.length + columnGap * (ws.length - 1) < spread ws) :
    ∃ w ∈ ws, columnFloor < w := by
  by_contra hnone
  have hsum : ws.foldr (· + ·) 0 ≤ columnFloor * ws.length :=
    sum_le_of_forall_le fun w hw => Nat.le_of_not_lt fun hlt => hnone ⟨w, hw, hlt⟩
  rw [spread] at h
  omega

section

variable {ratios : List (Option Ratio)} (hne : ratios ≠ [])
include hne

theorem shares_ne_nil (total : Nat) : shares ratios total ≠ [] :=
  List.map_eq_nil_iff.not.2 hne

/-- Shares that are not too wide together are widened to the width of the group. -/
theorem spread_columnWidths_of_le {total : Nat} (h : spread (shares ratios total) ≤ total) :
    spread (columnWidths ratios total) = total := by
  rw [columnWidths, Nat.sub_eq_zero_of_le h, narrow, spread_widen (shares_ne_nil hne total)]
  omega

/-- What the columns take beyond the width is what is left of the excess. -/
theorem exists_left (total : Nat) :
    ∃ left, spread (columnWidths ratios total) = total + left ∧
      (left = 0 ↔ ∀ i < ratios.length, columnFloor +
        turns ratios.length (spread (shares ratios total) - total) i ≤
          (shares ratios total).getD i 0) ∧
      (left ≠ 0 → (columnWidths ratios total).getD (left % ratios.length) 0 = columnFloor) := by
  have hfloor : ∀ w ∈ shares ratios total, columnFloor ≤ w :=
    fun _ => columnFloor_le_of_mem_shares
  have hlength : (shares ratios total).length = ratios.length := List.length_map _
  rcases le_or_gt (spread (shares ratios total)) total with hle | hlt
  · -- nothing is too much
    refine ⟨0, spread_columnWidths_of_le hne hle, ⟨fun _ i hi => ?_, fun _ => rfl⟩,
      fun h => absurd rfl h⟩
    rw [Nat.sub_eq_zero_of_le hle]
    exact columnFloor_le_getD hfloor (hlength ▸ hi)
  · -- nothing is missing
    have hmissing : total - spread (shares ratios total) = 0 := Nat.sub_eq_zero_of_le hlt.le
    have hshares := shares_ne_nil hne total
    obtain ⟨left, hs⟩ := exists_stopsAt hshares hfloor (spread (shares ratios total) - total)
    have hleft := hs.left_eq_zero_iff hshares hfloor
    have hnext := hs.floor
    have hspread := hs.spread_eq
    rw [hlength] at hleft hnext
    rw [columnWidths, hmissing, widen]
    exact ⟨left, by omega, hleft, hnext⟩

end

/-- Where a group has room for its columns at the floor, they take its width exactly if every
column is asked for the floor and its turns at giving away what is too much, as when nothing is. If
not, they are too wide and the next column in turn is at the floor, though another one is wider. -/
theorem spread_columnWidths {ratios : List (Option Ratio)} {total : Nat} (hne : ratios ≠ [])
    (hroom : 18 * ratios.length + 3 * (ratios.length - 1) ≤ total) :
    (columnWidths ratios total).length = ratios.length ∧
      (∀ w ∈ columnWidths ratios total, 18 ≤ w) ∧
      (spread (shares ratios total) ≤ total → spread (columnWidths ratios total) = total) ∧
      (spread (columnWidths ratios total) = total ↔ ∀ i < ratios.length,
        18 + turns ratios.length (spread (shares ratios total) - total) i ≤
          (shares ratios total).getD i 0) ∧
      (spread (columnWidths ratios total) ≠ total →
        total < spread (columnWidths ratios total) ∧
        (columnWidths ratios total).getD
          ((spread (columnWidths ratios total) - total) % ratios.length) 0 = 18 ∧
        ∃ w ∈ columnWidths ratios total, 18 < w) := by
  have hlength := length_columnWidths ratios total
  obtain ⟨left, hspread, hexact, hnext⟩ := exists_left hne total
  refine ⟨hlength, fun w hw => columnFloor_le_of_mem hw, spread_columnWidths_of_le hne, ?_,
    fun hover => ⟨?_, ?_, ?_⟩⟩
  · rw [hspread, Nat.add_eq_left]
    exact hexact
  · omega
  · rw [hspread, Nat.add_sub_cancel_left]
    exact hnext (by omega)
  · refine exists_lt_of_lt_spread ?_
    rw [hlength, columnFloor, columnGap]
    omega

theorem spread_columnWidths_halves :
    spread (columnWidths [some ⟨1, 2⟩, none, some ⟨1, 2⟩] 100) = 100 := by
  have hne : [some (⟨1, 2⟩ : Ratio), none, some ⟨1, 2⟩] ≠ [] := List.cons_ne_nil _ _
  have hroom : 18 * 3 + 3 * (3 - 1) ≤ 100 := by decide
  exact (spread_columnWidths hne hroom).2.2.2.1.2 (by decide +kernel)

/-- Columns at the floor need not give way to a column that is wider: with room for three columns at
the floor, two of them are at the floor and the third one keeps the group too wide. -/
theorem spread_columnWidths_ne_ninths :
    18 * 3 + 3 * (3 - 1) ≤ 60 ∧
      columnWidths [some ⟨1, 9⟩, some ⟨7, 9⟩, some ⟨1, 9⟩] 60 = [18, 45, 18] ∧
      spread (columnWidths [some ⟨1, 9⟩, some ⟨7, 9⟩, some ⟨1, 9⟩] 60) ≠ 60 := by
  decide +kernel

end Wireframe.Layout
