import Wireframe.Proofs.Dump.Presentation
import Wireframe.Proofs.Source.Canonical
import Wireframe.Render

/-! Dumps are loaded again. What is printed for a tree presents that tree, and a root,
section or group costs two levels of JSON where a row costs one, so a dump is loaded
exactly if no node but a row lies deeper than 62 and no row deeper than 63
(`load_print`). The limit of sources lies well within this one, so what is shown of a
parsed tree is shown of its dump too. -/

namespace Wireframe

namespace Node

open Json

/-! ### The value of a tree -/

theorem readable_num (n : UInt32) : (Json.num (.ofNat n.toNat)).Readable := by
  have hsize : UInt64.size = 2 ^ 64 := rfl
  have hlt := n.toNat_lt
  exact Numeral.readable_ofNat (by omega)

theorem readable_ratio (ratio : Option Ratio) : ((ratio.map Ratio.toJson).getD .null).Readable := by
  cases ratio with
  | none => trivial
  | some r => exact ⟨readable_num r.n, readable_num r.d, trivial⟩

mutual

theorem readable_toJson (t : Node) : t.toJson.Readable := by
  cases t with
  | root ts => exact ⟨trivial, readableItems_toJsons ts, trivial⟩
  | sect name ratio ts =>
    exact ⟨trivial, trivial, readable_ratio ratio, readableItems_toJsons ts, trivial⟩
  | group ts => exact ⟨trivial, readableItems_toJsons ts, trivial⟩
  | row text => exact ⟨trivial, trivial, trivial⟩

theorem readableItems_toJsons (ts : List Node) : ReadableItems (toJsons ts) := by
  cases ts with
  | nil => trivial
  | cons t ts => exact ⟨readable_toJson t, readableItems_toJsons ts⟩

end

/-! ### Depth -/

mutual

/-- Whether no root, section or group of a tree lies deeper than 62 and no row deeper than 63, where
its top lies at the given depth. -/
def LoadableAt (depth : Nat) : Node → Prop
  | root children => depth ≤ 62 ∧ LoadableAllAt (depth + 1) children
  | sect _ _ children => depth ≤ 62 ∧ LoadableAllAt (depth + 1) children
  | group children => depth ≤ 62 ∧ LoadableAllAt (depth + 1) children
  | row _ => depth ≤ 63

def LoadableAllAt (depth : Nat) : List Node → Prop
  | [] => True
  | t :: ts => LoadableAt depth t ∧ LoadableAllAt depth ts

end

theorem depth_ratio (ratio : Option Ratio) : ((ratio.map Ratio.toJson).getD .null).depth ≤ 1 := by
  cases ratio with
  | none => exact Nat.zero_le _
  | some r => exact Nat.le_refl _

/-- The value of a container lies two levels around the values of its children. -/
theorem depth_toJson_sect (name : Text) (ratio : Option Ratio) (ts : List Node) :
    (sect name ratio ts).toJson.depth = depthItems (toJsons ts) + 2 := by
  have hr := depth_ratio ratio
  simp only [toJson, typeMember, Json.depth, depthMembers]
  omega

theorem depth_toJson_group (ts : List Node) :
    (group ts).toJson.depth = depthItems (toJsons ts) + 2 := by
  simp only [toJson, typeMember, Json.depth, depthMembers]
  omega

theorem depth_toJson_root (ts : List Node) :
    (root ts).toJson.depth = depthItems (toJsons ts) + 2 := depth_toJson_group ts

mutual

theorem loadableAt_iff (d : Nat) (t : Node) :
    t.LoadableAt d ↔ 2 * d + t.toJson.depth ≤ Json.maxDepth := by
  have hmax : Json.maxDepth = 127 := rfl
  cases t with
  | root ts => rw [LoadableAt, depth_toJson_root, loadableAllAt_iff]
  | sect name ratio ts => rw [LoadableAt, depth_toJson_sect, loadableAllAt_iff]
  | group ts => rw [LoadableAt, depth_toJson_group, loadableAllAt_iff]
  | row text =>
    rw [LoadableAt, show (row text).toJson.depth = 1 from rfl, hmax]
    omega

/-- The children of a node of depth `d`. -/
theorem loadableAllAt_iff (d : Nat) (ts : List Node) :
    (d ≤ 62 ∧ LoadableAllAt (d + 1) ts) ↔
      2 * d + (depthItems (toJsons ts) + 2) ≤ Json.maxDepth := by
  have hmax : Json.maxDepth = 127 := rfl
  cases ts with
  | nil =>
    simp only [LoadableAllAt, toJsons, depthItems, and_true, hmax]
    omega
  | cons t ts =>
    have ht := loadableAt_iff (d + 1) t
    have hts := loadableAllAt_iff d ts
    rw [LoadableAllAt, toJsons, depthItems, ht, and_left_comm, hts]
    omega

end

instance (d : Nat) (t : Node) : Decidable (t.LoadableAt d) :=
  decidable_of_iff _ (loadableAt_iff d t).symm

mutual

/-- Canonical trees lie within the limit of dumps. -/
theorem loadableAt_of_canonicalAt {level : Nat} {t : Node} (h : t.CanonicalAt level)
    (hl : level ≤ Source.maxDepth + 1) : t.LoadableAt level := by
  have hmax : Source.maxDepth = 48 := rfl
  cases t with
  | root ts => exact h.elim
  | sect name ratio ts =>
    have := h.1
    exact ⟨by omega, loadableAllAt_of_canonicalAllAt h.2.2 (by omega)⟩
  | group ts =>
    have := h.1
    exact ⟨by omega, loadableAllAt_of_canonicalAllAt h.2 (by omega)⟩
  | row text =>
    change level ≤ 63
    omega

theorem loadableAllAt_of_canonicalAllAt {level : Nat} {ts : List Node} (h : CanonicalAllAt level ts)
    (hl : level ≤ Source.maxDepth + 1) : LoadableAllAt level ts := by
  cases ts with
  | nil => trivial
  | cons t ts =>
    exact ⟨loadableAt_of_canonicalAt h.1 hl, loadableAllAt_of_canonicalAllAt h.2 hl⟩

end

end Node

namespace Dump

open Node

/-- A dump is loaded exactly if the value of its tree does not nest too deep. -/
theorem load_print_root (ts : List Node) :
    load (print (.root ts)) =
      if (Node.root ts).toJson.depth ≤ Json.maxDepth then .ok (.root ts) else .error .notTree :=
  load_of_written rfl (presents_toJson _) (Json.written_printAt 0 _ (readable_toJson _))

theorem load_of_loadableAt {ts : List Node} (h : (Node.root ts).LoadableAt 0) :
    load (print (.root ts)) = .ok (.root ts) := by
  rw [loadableAt_iff, Nat.mul_zero, Nat.zero_add] at h
  rw [load_print_root, if_pos h]

theorem load_of_not_loadableAt {ts : List Node} (h : ¬ (Node.root ts).LoadableAt 0) :
    load (print (.root ts)) = .error .notTree := by
  rw [loadableAt_iff, Nat.mul_zero, Nat.zero_add] at h
  rw [load_print_root, if_neg h]

/-- A dump is loaded as the tree it was written for, unless the tree nests too deep; the trees of
sources do not, so their dumps are loaded and shown as they are themselves. -/
theorem load_print (t : Node) (ht : t.kind = .root) :
    (t.LoadableAt 0 → load (print t) = .ok t) ∧
      (¬ t.LoadableAt 0 → load (print t) = .error .notTree) ∧
      ∀ source, Source.parse source = .ok t →
        load (print t) = .ok t ∧
          ∀ options, (load (print t)).map (Node.render options) = .ok (t.render options) := by
  cases t with
  | root ts =>
    refine ⟨load_of_loadableAt, load_of_not_loadableAt, fun source hs => ?_⟩
    obtain ⟨ts', he, ho⟩ := Source.parse_eq_ok_iff.1 hs
    obtain rfl := Node.root.inj he
    have hc := Source.canonicalAllAt_of_parse ho
    have hl := load_of_loadableAt
      ⟨Nat.zero_le 62, loadableAllAt_of_canonicalAllAt hc (Nat.succ_le_succ (Nat.zero_le _))⟩
    exact ⟨hl, fun options => by rw [hl]; rfl⟩
  | _ => contradiction

/-- A nested root and a row of quotes and controls, groups nested too deep, and a source. -/
theorem load_print_sample :
    load (print (.root [.root [.row "\"\\\t".toList], .sect [] (some ⟨0, 7⟩) []])) =
        .ok (.root [.root [.row "\"\\\t".toList], .sect [] (some ⟨0, 7⟩) []]) ∧
      load (print (.root [Nat.repeat (fun t => .group [t]) 63 (.row [])])) = .error .notTree ∧
      ∀ options, (load (print (.root [.group [.row ['x']]]))).map (Node.render options) =
        .ok ((Node.root [.group [.row ['x']]]).render options) :=
  ⟨(load_print _ rfl).1 (by decide), (load_print _ rfl).2.1 (by decide +kernel),
    ((load_print _ rfl).2.2 "[\n  x\n]".toList rfl).2⟩

end Dump

end Wireframe
