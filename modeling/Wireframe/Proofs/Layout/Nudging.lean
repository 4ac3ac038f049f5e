import Mathlib.Data.Int.CardIntervalMod
import Wireframe.Proofs.Layout.Turns

/-! Nudging columns. The columns of a group come from their shares in steps of one column: a step
widens the next in turn while something is missing and narrows it while something is too much,
and there is no further step if neither is or the next in turn is at the floor (`nudge?`). The steps
end, and the columns are where they end (`exists_nudges?_shares`). Turns go round, so between two
moments no column has more than one turn more than another, and none has fewer than the next in turn
(`turns_fair`, `turns_next_le`). Hence columns are nudged evenly (`nudgesEvenly`), and those without
ratios take the width of the group, or the floor where it has no room for that
(`spread_columnWidths_of_unratioed`). -/

namespace Wireframe.Layout

/-! ### Steps -/

/-- The columns after the next in turn is widened or narrowed by one, if there is anything missing,
or too much and the next in turn wider than the floor. -/
def nudge? (total : Nat) (ws : List Nat) : Option (List Nat) :=
  if spread ws < total then
    some (ws.modify ((total - spread ws) % ws.length) (· + 1))
  else if spread ws = total ∨ ws.getD ((spread ws - total) % ws.length) 0 ≤ columnFloor then none
  else some (ws.modify ((spread ws - total) % ws.length) (· - 1))

/-- The columns after a number of steps, if there are so many. -/
def nudges? (total : Nat) : (steps : Nat) → List Nat → Option (List Nat)
  | 0, ws => some ws
  | steps + 1, ws => (nudge? total ws).bind (nudges? total steps)

section

variable {total : Nat} {ws : List Nat} (hne : ws ≠ [])
include hne

/-- Widening takes a step for each column that is missing. -/
theorem nudges?_widen {missing : Nat} (h : spread ws + missing = total) :
    nudges? total missing ws = some (widen missing ws) := by
  induction missing generalizing ws with
  | zero => rfl
  | succ missing ih =>
    have hnext : (missing + 1) % ws.length < ws.length := Nat.mod_lt _ (List.length_pos_iff.2 hne)
    have hspread := spread_modify hnext (· + 1)
    have hmissing : total - spread ws = missing + 1 := by omega
    have hstep : nudge? total ws = some (ws.modify ((missing + 1) % ws.length) (· + 1)) := by
      rw [nudge?, if_pos (by omega), hmissing]
    rw [nudges?, hstep, Option.bind_some, widen]
    exact ih (List.modify_eq_nil_iff.not.2 hne) (by omega)

/-- Narrowing takes a step for each column that it takes away, and then there is none. -/
theorem exists_nudges?_narrow {excess : Nat} (h : spread ws = total + excess) :
    ∃ steps, spread (narrow excess ws) + steps = spread ws ∧
      nudges? total steps ws = some (narrow excess ws) ∧
        nudge? total (narrow excess ws) = none := by
  induction excess generalizing ws with
  | zero =>
    refine ⟨0, rfl, rfl, ?_⟩
    rw [narrow, nudge?, if_neg (by omega), if_pos (.inl h)]
  | succ excess ih =>
    have hnext : (excess + 1) % ws.length < ws.length := Nat.mod_lt _ (List.length_pos_iff.2 hne)
    have hexcess : spread ws - total = excess + 1 := by omega
    by_cases hfloor : ws.getD ((excess + 1) % ws.length) 0 ≤ columnFloor
    · have hnarrow : narrow (excess + 1) ws = ws := by rw [narrow, if_pos hfloor]
      refine ⟨0, ?_, ?_, ?_⟩
      · rw [hnarrow, Nat.add_zero]
      · rw [hnarrow, nudges?]
      · rw [hnarrow, nudge?, if_neg (by omega), hexcess, if_pos (.inr hfloor)]
    · have hnarrow : narrow (excess + 1) ws =
          narrow excess (ws.modify ((excess + 1) % ws.length) (· - 1)) := by
        rw [narrow, if_neg hfloor]
      have hstep : nudge? total ws = some (ws.modify ((excess + 1) % ws.length) (· - 1)) := by
        rw [nudge?, if_neg (by omega), hexcess, if_neg (not_or.2 ⟨by omega, hfloor⟩)]
      have hspread : spread (ws.modify ((excess + 1) % ws.length) (· - 1)) = total + excess := by
        have hone := spread_modify hnext (· - 1)
        rw [← List.getElem_eq_getD (h := hnext)] at hfloor
        omega
      obtain ⟨steps, hsteps, hrun, hend⟩ := ih (List.modify_eq_nil_iff.not.2 hne) hspread
      rw [hnarrow]
      refine ⟨steps + 1, by omega, ?_, hend⟩
      rw [nudges?, hstep, Option.bind_some, hrun]

end

/-! ### Turns -/

/-- In each round the first column is the last in turn. -/
theorem turns_eq {columns i : Nat} (hi : i < columns) (steps : Nat) : turns columns steps i =
    steps / columns + if 0 < i ∧ i ≤ steps % columns then 1 else 0 := by
  -- steps are counted from one, so the remainder is that of the number before
  have hturn : ∀ k, (k + 1) % columns = i ↔ k ≡ i + (columns - 1) [MOD columns] := by
    intro k
    have hround : i + (columns - 1) + 1 = i + columns := by omega
    rw [← Nat.ModEq.add_iff_right (Nat.ModEq.refl 1), hround, Nat.ModEq, Nat.add_mod_right,
      Nat.mod_eq_of_lt hi]
  have hlast : (i + (columns - 1)) % columns < steps % columns ↔ 0 < i ∧ i ≤ steps % columns := by
    have hsteps : steps % columns < columns := Nat.mod_lt _ (by omega)
    rcases Nat.eq_zero_or_pos i with rfl | hpos
    · rw [Nat.zero_add, Nat.mod_eq_of_lt (by omega)]
      omega
    · have hround : i + (columns - 1) = i - 1 + columns := by omega
      rw [hround, Nat.add_mod_right, Nat.mod_eq_of_lt (by omega)]
      omega
  simp only [turns, hturn, Nat.count_modEq_card _ (Nat.zero_lt_of_lt hi), hlast]

section

variable {columns i j : Nat} (hi : i < columns) (left steps : Nat)
include hi

/-- From one moment to another, no column has more than one turn more than another. -/
theorem turns_fair (hj : j < columns) : turns columns steps i + turns columns left j ≤
    turns columns steps j + turns columns left i + 1 := by
  rw [turns_eq hi, turns_eq hi, turns_eq hj, turns_eq hj]
  split_ifs <;> omega

/-- From one moment to another, no column has fewer turns than the one whose turn it is at the
first. -/
theorem turns_next_le : turns columns steps (left % columns) + turns columns left i ≤
    turns columns steps i + turns columns left (left % columns) := by
  have hnext : left % columns < columns := Nat.mod_lt _ (Nat.zero_lt_of_lt hi)
  rw [turns_eq hi, turns_eq hi, turns_eq hnext, turns_eq hnext]
  split_ifs <;> omega

end

/-! ### Widths after nudging -/

/-- Each column is widened by one for each of its turns. -/
theorem getD_widen {ws : List Nat} (hne : ws ≠ []) (missing i : Nat) :
    (widen missing ws).getD i 0 = ws.getD i 0 + turns ws.length missing i := by
  induction missing generalizing ws with
  | zero => rfl
  | succ missing ih =>
    have hnext : (missing + 1) % ws.length < ws.length := Nat.mod_lt _ (List.length_pos_iff.2 hne)
    rw [widen, ih (List.modify_eq_nil_iff.not.2 hne), getD_modify hnext, List.length_modify,
      turns_succ]
    split
    · omega
    · rfl

section

variable {ratios : List (Option Ratio)} (hne : ratios ≠ [])
include hne

/-- The steps from the shares end at the widths of the columns. -/
theorem exists_nudges?_shares (total : Nat) :
    ∃ steps, nudges? total steps (shares ratios total) = some (columnWidths ratios total) ∧
      nudge? total (columnWidths ratios total) = none := by
  have hshares := shares_ne_nil hne total
  rcases le_or_gt (spread (shares ratios total)) total with hle | hlt
  · have hspread := spread_columnWidths_of_le hne hle
    rw [columnWidths, Nat.sub_eq_zero_of_le hle, narrow] at hspread ⊢
    refine ⟨_, nudges?_widen hshares (Nat.add_sub_of_le hle), ?_⟩
    rw [nudge?, if_neg (by omega), if_pos (.inl hspread)]
  · rw [columnWidths, Nat.sub_eq_zero_of_le hlt.le, widen]
    obtain ⟨steps, -, hrun, hend⟩ :=
      exists_nudges?_narrow hshares (Nat.add_sub_of_le hlt.le).symm
    exact ⟨steps, hrun, hend⟩

/-- Each column is widened once for each of its turns while something is missing, and narrowed once
for each while something is too much, until the next in turn is at the floor. -/
theorem exists_turns (total : Nat) : ∃ left,
    spread (columnWidths ratios total) = total + left ∧
      left ≤ spread (shares ratios total) - total ∧
      (left ≠ 0 → (columnWidths ratios total).getD (left % ratios.length) 0 = columnFloor) ∧
      ∀ i, (columnWidths ratios total).getD i 0 +
          turns ratios.length (spread (shares ratios total) - total) i =
        (shares ratios total).getD i 0 +
          turns ratios.length (total - spread (shares ratios total)) i +
          turns ratios.length left i := by
  have hfloor : ∀ w ∈ shares ratios total, columnFloor ≤ w :=
    fun _ => columnFloor_le_of_mem_shares
  have hlength : (shares ratios total).length = ratios.length := List.length_map _
  have hshares := shares_ne_nil hne total
  rcases le_or_gt (spread (shares ratios total)) total with hle | hlt
  · -- nothing is too much, and nothing is left of it
    refine ⟨0, spread_columnWidths_of_le hne hle, Nat.zero_le _, fun h => absurd rfl h,
      fun i => ?_⟩
    rw [columnWidths, Nat.sub_eq_zero_of_le hle, narrow, getD_widen hshares, hlength]
  · -- nothing is missing
    have hexcess := Nat.add_sub_of_le hlt.le
    obtain ⟨left, hs⟩ := exists_stopsAt hshares hfloor (spread (shares ratios total) - total)
    obtain ⟨steps, hsteps, -, -⟩ := exists_nudges?_narrow hshares hexcess.symm
    have hspread := hs.spread_eq
    have hnext := hs.floor
    have hwidth := hs.getD_eq
    rw [hlength] at hnext hwidth
    rw [columnWidths, Nat.sub_eq_zero_of_le hlt.le, widen]
    exact ⟨left, by omega, by omega, hnext, hwidth⟩

end

/-- What nudging gives to a column, or takes from it. -/
def nudged (ratios : List (Option Ratio)) (total i : Nat) : Int :=
  (columnWidths ratios total).getD i 0 - (shares ratios total).getD i 0

section

variable {ratios : List (Option Ratio)} (hne : ratios ≠ []) (total : Nat)
include hne

/-- No column is narrowed while something is missing, and none is widened while nothing is. -/
theorem nudged_sign : (∀ i, 0 ≤ nudged ratios total i) ∨ ∀ i, nudged ratios total i ≤ 0 := by
  obtain ⟨left, -, hleft, -, hwidth⟩ := exists_turns hne total
  have hzero : ∀ i, turns ratios.length 0 i = 0 := fun _ => rfl
  rcases le_or_gt (spread (shares ratios total)) total with hle | hlt
  · refine .inl fun i => ?_
    have hi := hwidth i
    rw [Nat.sub_eq_zero_of_le hle, hzero] at hi
    rw [nudged]
    omega
  · refine .inr fun i => ?_
    have hi := hwidth i
    have hturns := Nat.count_monotone (fun k => (k + 1) % ratios.length = i) hleft
    rw [← turns, ← turns] at hturns
    rw [Nat.sub_eq_zero_of_le hlt.le, hzero] at hi
    rw [nudged]
    omega

/-- What is given to a column, or taken from it, is at most one more than for another. -/
theorem nudged_le_add_one {i j : Nat} (hi : i < ratios.length) (hj : j < ratios.length) :
    nudged ratios total i ≤ nudged ratios total j + 1 := by
  obtain ⟨left, -, hleft, -, hwidth⟩ := exists_turns hne total
  have hzero : ∀ i, turns ratios.length 0 i = 0 := fun _ => rfl
  have hwi := hwidth i
  have hwj := hwidth j
  rw [nudged, nudged]
  rcases le_or_gt (spread (shares ratios total)) total with hle | hlt
  · have hfair := turns_fair hi 0 (total - spread (shares ratios total)) hj
    rw [Nat.sub_eq_zero_of_le hle] at hleft hwi hwj
    rw [Nat.le_zero.1 hleft] at hwi hwj
    rw [hzero, hzero] at hfair
    omega
  · have hfair := turns_fair hj left (spread (shares ratios total) - total) hi
    rw [Nat.sub_eq_zero_of_le hlt.le, hzero] at hwi hwj
    omega

end

/-- How the widths of the columns of a group come from their shares. -/
structure NudgesEvenly (ratios : List (Option Ratio)) (total : Nat) : Prop where
  /-- The steps from the shares end at the widths. -/
  ends : ∃ steps,
    nudges? total steps (shares ratios total) = some (columnWidths ratios total) ∧
      nudge? total (columnWidths ratios total) = none
  length_eq : (columnWidths ratios total).length = ratios.length
  floor_le_share : ∀ w ∈ shares ratios total, 18 ≤ w
  floor_le : ∀ w ∈ columnWidths ratios total, 18 ≤ w
  filled : spread (shares ratios total) ≤ total → spread (columnWidths ratios total) = total
  between : total < spread (shares ratios total) →
    total ≤ spread (columnWidths ratios total) ∧
      spread (columnWidths ratios total) ≤ spread (shares ratios total)
  /-- No column is widened while another one is narrowed. -/
  oneWay : ∀ i < ratios.length, ∀ j < ratios.length,
    ¬ (0 < nudged ratios total i ∧ nudged ratios total j < 0)
  fair : ∀ i < ratios.length, ∀ j < ratios.length,
    nudged ratios total i ≤ nudged ratios total j + 1
  /-- Columns that are too wide together have the next in turn at the floor. -/
  next_eq : total < spread (columnWidths ratios total) →
    (columnWidths ratios total).getD
      ((spread (columnWidths ratios total) - total) % ratios.length) 0 = 18

theorem nudgesEvenly {ratios : List (Option Ratio)} (hne : ratios ≠ []) (total : Nat) :
    NudgesEvenly ratios total := by
  obtain ⟨left, hspread, hleft, hnext, -⟩ := exists_turns hne total
  refine ⟨exists_nudges?_shares hne total, length_columnWidths ratios total,
    fun _ => columnFloor_le_of_mem_shares, fun _ => columnFloor_le_of_mem,
    spread_columnWidths_of_le hne, fun _ => by omega, fun i _ j _ => ?_,
    fun i hi j hj => nudged_le_add_one hne total hi hj, fun hover => ?_⟩
  · rintro ⟨hwidened, hnarrowed⟩
    rcases nudged_sign hne total with h | h
    · exact absurd hnarrowed (Int.not_lt.2 (h j))
    · exact absurd hwidened (Int.not_lt.2 (h i))
  · rw [hspread, Nat.add_sub_cancel_left]
    exact hnext (by omega)

/-- Columns that are narrowed until the next in turn is at the floor, and still too wide then. -/
theorem nudgesEvenly_fifths :
    let ratios := [none, some (⟨1, 5⟩ : Ratio), some ⟨3, 5⟩]
    ratios ≠ [] ∧ NudgesEvenly ratios 90 ∧
      shares ratios 90 = [30, 22, 67] ∧ columnWidths ratios 90 = [26, 18, 62] := by
  intro ratios
  have hne : ratios ≠ [] := List.cons_ne_nil _ _
  exact ⟨hne, nudgesEvenly hne 90, by decide +kernel, by decide +kernel⟩

/-! ### Columns without ratios -/

theorem le_spread {ws : List Nat} (h : ∀ w ∈ ws, columnFloor ≤ w) :
    columnFloor * ws.length + columnGap * (ws.length - 1) ≤ spread ws := by
  have hsum : columnFloor * ws.length ≤ ws.foldr (· + ·) 0 := by
    induction ws with
    | nil => exact Nat.le_refl 0
    | cons w ws ih =>
      obtain ⟨hw, hws⟩ := List.forall_mem_cons.1 h
      have := ih hws
      rw [List.foldr_cons, List.length_cons, Nat.mul_succ]
      omega
  rw [spread]
  omega

section

variable {ratios : List (Option Ratio)} (h : ∀ r ∈ ratios, r = none) {total : Nat}
include h

theorem getD_shares_of_unratioed {i : Nat} (hi : i < ratios.length) :
    (shares ratios total).getD i 0 = evenShare ratios.length total := by
  have hratio : ratios[i] = none := h _ (List.getElem_mem hi)
  rw [shares, List.getD_eq_getElem?_getD, List.getElem?_map, List.getElem?_eq_getElem hi, hratio]
  rfl

theorem getD_columnWidths_le_add_one {i j : Nat} (hi : i < ratios.length) (hj : j < ratios.length) :
    (columnWidths ratios total).getD i 0 ≤ (columnWidths ratios total).getD j 0 + 1 := by
  have hfair := nudged_le_add_one (List.ne_nil_of_length_pos (Nat.zero_lt_of_lt hi)) total hi hj
  rw [nudged, nudged, getD_shares_of_unratioed h hi, getD_shares_of_unratioed h hj] at hfair
  omega

/-- Without ratios the columns are narrowed until they are all at the floor, if that is what stops
them. -/
theorem getD_columnWidths_le_columnFloor (hover : total < spread (columnWidths ratios total))
    {i : Nat} (hi : i < ratios.length) : (columnWidths ratios total).getD i 0 ≤ columnFloor := by
  have hpos := Nat.zero_lt_of_lt hi
  obtain ⟨left, hspread, hleft, hnext, hwidth⟩ :=
    exists_turns (List.ne_nil_of_length_pos hpos) total
  have hlast : left % ratios.length < ratios.length := Nat.mod_lt _ hpos
  have hmissing : total - spread (shares ratios total) = 0 := by omega
  have hzero : ∀ i, turns ratios.length 0 i = 0 := fun _ => rfl
  -- the next in turn, which is at the floor, had no more turns than any other column
  have hturns := turns_next_le hi left (spread (shares ratios total) - total)
  have hwi := hwidth i
  have hwl := hwidth (left % ratios.length)
  rw [getD_shares_of_unratioed h hi, hmissing, hzero] at hwi
  rw [getD_shares_of_unratioed h hlast, hnext (by omega), hmissing, hzero] at hwl
  omega

theorem spread_columnWidths_le_floor (hover : total < spread (columnWidths ratios total)) :
    spread (columnWidths ratios total) ≤
      columnFloor * ratios.length + columnGap * (ratios.length - 1) := by
  have hlength := length_columnWidths ratios total
  by_contra hwide
  rw [← hlength] at hwide
  obtain ⟨w, hw, hlt⟩ := exists_lt_of_lt_spread (Nat.lt_of_not_le hwide)
  obtain ⟨i, hi, rfl⟩ := List.getElem_of_mem hw
  rw [List.getElem_eq_getD 0] at hlt
  exact absurd hlt (Nat.not_lt.2 (getD_columnWidths_le_columnFloor h hover (hlength ▸ hi)))

end

/-- The columns of a group without ratios differ by one at most. They take the width of the group,
or are all at the floor where it is not wide enough for that. -/
theorem spread_columnWidths_of_unratioed {children : List Node} (hne : children ≠ [])
    (hnone : ∀ child ∈ children, child.ratio = none) (total : Nat) :
    let widths := columnWidths (children.map Node.ratio) total
    widths.length = children.length ∧
      spread widths = max total (18 * children.length + 3 * (children.length - 1)) ∧
      (∀ w ∈ widths, 18 ≤ w) ∧
      ∀ v ∈ widths, ∀ w ∈ widths, v ≤ w + 1 := by
  intro widths
  have hratios : children.map Node.ratio ≠ [] := List.map_eq_nil_iff.not.2 hne
  have hunratioed : ∀ r ∈ children.map Node.ratio, r = none := List.forall_mem_map.2 hnone
  have hlength : widths.length = (children.map Node.ratio).length := length_columnWidths _ total
  have hfloor : ∀ w ∈ widths, columnFloor ≤ w := fun _ => columnFloor_le_of_mem
  refine ⟨hlength.trans (List.length_map _), ?_, hfloor, fun v hv w hw => ?_⟩
  · have hleast := le_spread hfloor
    have htotal : total ≤ spread widths := by
      obtain ⟨left, hspread, -⟩ := exists_turns hratios total
      exact hspread ▸ Nat.le_add_right _ _
    rw [hlength, List.length_map, columnFloor, columnGap] at hleast
    rcases Nat.eq_or_lt_of_le htotal with heq | hover
    · omega
    · have hmost : spread widths ≤ _ := spread_columnWidths_le_floor hunratioed hover
      rw [List.length_map, columnFloor, columnGap] at hmost
      omega
  · obtain ⟨i, hi, rfl⟩ := List.getElem_of_mem hv
    obtain ⟨j, hj, rfl⟩ := List.getElem_of_mem hw
    rw [hlength] at hi hj
    rw [List.getElem_eq_getD 0, List.getElem_eq_getD 0]
    exact getD_columnWidths_le_add_one hunratioed hi hj

/-- Three columns that have to give up five columns between them, and can only do so down to the
floor. -/
theorem spread_columnWidths_of_unratioed_sampleChildren :
    let children := [Node.row "one".toList, .group [], .sect "three".toList none []]
    children ≠ [] ∧ (∀ child ∈ children, child.ratio = none) ∧
      spread (columnWidths (children.map Node.ratio) 61) = 61 := by
  intro children
  have hne : children ≠ [] := List.cons_ne_nil _ _
  have hnone : ∀ child ∈ children, child.ratio = none := by decide
  exact ⟨hne, hnone, (spread_columnWidths_of_unratioed hne hnone 61).2.1⟩

end Wireframe.Layout
