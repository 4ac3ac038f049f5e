import Wireframe.Proofs.Layout.Room

/-! What a layout does not show. The names of sections are never looked at, and the numbers of a
ratio only where the section is a column among others: elsewhere a ratio merely says that a section
may be framed. So trees that differ in nothing else (`Node.Alike`) have the same lines at every
width (`lines_eq_of_alike`). Frames are decided by the presence of ratios alone
(`isFramed_eq`), and columns are sized by ratios that are the same. -/

namespace Wireframe

namespace Node

mutual

/-- Trees of one shape with the same rows. Sections may have other names, and ratios other numbers,
but for the ratios of the children of a group that has two or more. -/
inductive Alike : Node → Node → Prop
  | root {ts us : List Node} (h : AllAlike ts us) : Alike (.root ts) (.root us)
  | sect {m n : Text} {r s : Option Ratio} {ts us : List Node} (hr : r.isSome = s.isSome)
      (h : AllAlike ts us) : Alike (.sect m r ts) (.sect n s us)
  | group {ts us : List Node} (hr : 2 ≤ ts.length → ts.map ratio = us.map ratio)
      (h : AllAlike ts us) : Alike (.group ts) (.group us)
  | row (text : Text) : Alike (.row text) (.row text)

inductive AllAlike : List Node → List Node → Prop
  | nil : AllAlike [] []
  | cons {t u : Node} {ts us : List Node} (h : Alike t u) (hs : AllAlike ts us) :
      AllAlike (t :: ts) (u :: us)

end

theorem Alike.isSome_ratio {t u : Node} (h : Alike t u) : t.ratio.isSome = u.ratio.isSome := by
  cases h with
  | sect hr h => exact hr
  | root h | group hr h | row text => rfl

end Node

namespace Layout

open Node

/-! ### Frames -/

theorem allRatioed_eq {ts us : List Node} (h : AllAlike ts us) : allRatioed ts = allRatioed us := by
  have hall : ∀ {ts us : List Node}, AllAlike ts us →
      ts.all (·.ratio.isSome) = us.all (·.ratio.isSome) := by
    intro ts
    induction ts with
    | nil =>
      rintro us ⟨⟩
      rfl
    | cons t ts ih =>
      rintro us (_ | ⟨h, hs⟩)
      rw [List.all_cons, List.all_cons, h.isSome_ratio, ih hs]
  rw [allRatioed, allRatioed, hall h]
  cases h <;> rfl

/-- Whether a section is framed does not depend on names or numbers. -/
theorem isFramed_eq {r s : Option Ratio} {ts us : List Node} (hr : r.isSome = s.isSome)
    (h : AllAlike ts us) : isFramed r ts = isFramed s us := by
  cases h with
  | nil => exact hr
  | cons h hs =>
    cases hs with
    | nil =>
      cases h with
      | group _ hcolumns => rw [isFramed, isFramed, hr, allRatioed_eq hcolumns]
      | root h | sect _ h | row text => exact hr
    | cons h' hs => cases h <;> exact hr

/-! ### Lines -/

mutual

theorem lines_congr {t u : Node} (h : Alike t u) (width : Nat) :
    lines width t = lines width u := by
  cases h with
  | root h => rw [lines, lines, blocks_congr h]
  | sect hr h => rw [lines, lines, isFramed_eq hr h, blocks_congr h]
  | group hr h =>
    have hblocks := blocks_congr h width
    have hcolumns := columns_congr h
    cases h with
    | nil => rfl
    | cons h hs =>
      cases hs with
      | nil => rw [lines, lines, (List.cons.inj hblocks).1]
      | cons h' hs =>
        rw [lines_group, lines_group, hr (Nat.le_add_left 2 _), hcolumns]
  | row text => rfl

theorem blocks_congr {ts us : List Node} (h : AllAlike ts us) (width : Nat) :
    blocks width ts = blocks width us := by
  cases h with
  | nil => rfl
  | cons h hs => rw [blocks, blocks, lines_congr h, blocks_congr hs]

theorem columns_congr {ts us : List Node} (h : AllAlike ts us) (widths : List Nat) :
    columns widths ts = columns widths us := by
  cases h with
  | nil => rfl
  | cons h hs =>
    cases widths with
    | nil => rfl
    | cons w ws => rw [columns, columns, lines_congr h, columns_congr hs]

end

/-- Trees that differ only in names and in the numbers of ratios that size no column have the same
lines at every width. -/
theorem lines_eq_of_alike {t u : Node} (h : Alike t u) : ∀ width, lines width t = lines width u :=
  lines_congr h

/-- Two columns with a ratio each, the first a frame around a framed section, and a framed section
around a group with one child, with the given names and numbers. -/
def samplePlan (outer inner lone : Text) (r s : Ratio) : Node :=
  .root [
    .group [
      .sect outer (some ⟨1, 3⟩) [.sect inner (some r) [.row "# one".toList]],
      .sect inner (some ⟨2, 3⟩) [.row "^two".toList]],
    .sect lone (some s) [.group [.sect lone (some r) [.row "three".toList]], .sect outer none []]]

theorem alike_samplePlan (outer inner lone outer' inner' lone' : Text) (r s r' s' : Ratio) :
    Alike (samplePlan outer inner lone r s) (samplePlan outer' inner' lone' r' s') := by
  have hcard : ∀ (m n : Text) (a b : Ratio) (text : Text),
      AllAlike [.sect m (some a) [.row text]] [.sect n (some b) [.row text]] :=
    fun _ _ _ _ text => .cons (.sect rfl (.cons (.row text) .nil)) .nil
  exact .root
    (.cons (.group (fun _ => rfl) (.cons (.sect rfl (hcard ..)) (hcard ..)))
    (.cons (.sect rfl
      (.cons (.group (fun h => absurd h (Nat.not_succ_le_self 1)) (hcard ..))
      (.cons (.sect rfl .nil) .nil))) .nil))

theorem lines_eq_of_alike_samplePlan :
    let t := samplePlan "main".toList "aside".toList "nav".toList ⟨1, 2⟩ ⟨1, 1⟩
    let u := samplePlan "a".toList [] "main".toList ⟨5, 0⟩ ⟨9, 7⟩
    Alike t u ∧ t.items ≠ u.items ∧ lines 60 t = lines 60 u := by
  have halike := alike_samplePlan "main".toList "aside".toList "nav".toList "a".toList []
    "main".toList ⟨1, 2⟩ ⟨1, 1⟩ ⟨5, 0⟩ ⟨9, 7⟩
  exact ⟨halike, by decide, lines_eq_of_alike halike 60⟩

end Layout

end Wireframe
