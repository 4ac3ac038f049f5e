import Wireframe.Proofs.Dump.RoundTrip
import Wireframe.Proofs.Json.Limit

/-! Dumps are brought into one form. A dump may write its nodes and ratios as lists or as
objects, with other members among theirs and with any white space; the dump of its tree
writes it in one way. That dump never nests deeper than the first did
(`depth_toJson_le`), so it is within the limit again and is loaded as the same tree
(`load_print_of_load`). -/

namespace Wireframe

namespace Node

open Json

/-! ### Where children are read from -/

theorem exists_items_of_ofArray? {j : Json} {ts : List Node} (h : ofArray? j = some ts) :
    ∃ items, j = .arr items ∧ ofJsons? items = some ts := by
  cases j with
  | arr items => exact ⟨items, rfl, h⟩
  | _ => contradiction

theorem exists_items_of_loneChildren? {fields : List Json} {ts : List Node}
    (h : loneChildren? fields = some ts) :
    ∃ items, fields = [.arr items] ∧ ofJsons? items = some ts := by
  match fields, h with
  | [j], h =>
    obtain ⟨items, rfl, hts⟩ := exists_items_of_ofArray? h
    exact ⟨items, rfl, hts⟩

theorem exists_items_of_childrenOf? {members : List (Text × Json)} {ts : List Node}
    (h : childrenOf? members = some ts) :
    ∃ k items, (k, .arr items) ∈ members ∧ ofJsons? items = some ts := by
  induction members with
  | nil => contradiction
  | cons m members ih =>
    obtain ⟨k, j⟩ := m
    rw [childrenOf?] at h
    split at h
    · split at h
      · contradiction
      · obtain ⟨items, rfl, hts⟩ := exists_items_of_ofArray? h
        exact ⟨k, items, List.mem_cons_self, hts⟩
    · obtain ⟨k', items, hm, hts⟩ := ih h
      exact ⟨k', items, List.mem_cons_of_mem _ hm, hts⟩

/-! ### The depth of what is read -/

/-- The tree may have been read from the value: it is a row and the value a container, or its
children were read from a list two levels further in. -/
def ReadFrom (t : Node) (j : Json) : Prop :=
  t.toJson.depth = 1 ∧ 1 ≤ j.depth ∨
    ∃ items ts, ofJsons? items = some ts ∧ t.toJson.depth = depthItems (toJsons ts) + 2 ∧
      depthItems items + 2 ≤ j.depth

theorem readFrom_of_childrenOf? {members : List (Text × Json)} {t : Node} {ts : List Node}
    (hts : childrenOf? members = some ts) (ht : t.toJson.depth = depthItems (toJsons ts) + 2) :
    t.ReadFrom (.obj members) := by
  obtain ⟨k, items, hm, hitems⟩ := exists_items_of_childrenOf? hts
  have hdepth : (Json.arr items).depth ≤ depthMembers members :=
    depthMembers_le_iff.1 (Nat.le_refl _) _ hm
  exact .inr ⟨items, ts, hitems, ht, Nat.succ_le_succ hdepth⟩

theorem readFrom_of_loneChildren? (before : List Json) {fields : List Json} {t : Node}
    {ts : List Node} (hts : loneChildren? fields = some ts)
    (ht : t.toJson.depth = depthItems (toJsons ts) + 2) :
    t.ReadFrom (.arr (before ++ fields)) := by
  obtain ⟨items, rfl, hitems⟩ := exists_items_of_loneChildren? hts
  have hdepth : (Json.arr items).depth ≤ depthItems (before ++ [.arr items]) :=
    depthItems_le_iff.1 (Nat.le_refl _) _ (by simp)
  exact .inr ⟨items, ts, hitems, ht, Nat.succ_le_succ hdepth⟩

theorem readFrom_of_obj {top : Bool} {members : List (Text × Json)} {t : Node}
    (h : ofJson? top (.obj members) = some t) : t.ReadFrom (.obj members) := by
  unfold ofJson? at h
  obtain ⟨kind, -, h⟩ := Option.bind_eq_some_iff.1 h
  cases kind with
  | root =>
    obtain ⟨ts, hts, rfl⟩ := Option.map_eq_some_iff.1 h
    exact readFrom_of_childrenOf? hts (depth_toJson_root ts)
  | group =>
    obtain ⟨ts, hts, rfl⟩ := Option.map_eq_some_iff.1 h
    exact readFrom_of_childrenOf? hts (depth_toJson_group ts)
  | sect =>
    obtain ⟨name, -, h⟩ := Option.bind_eq_some_iff.1 h
    obtain ⟨ratio, -, h⟩ := Option.bind_eq_some_iff.1 h
    obtain ⟨ts, hts, rfl⟩ := Option.map_eq_some_iff.1 h
    exact readFrom_of_childrenOf? hts (depth_toJson_sect name ratio ts)
  | row =>
    obtain ⟨text, -, rfl⟩ := Option.map_eq_some_iff.1 h
    exact .inl ⟨rfl, Nat.le_add_left ..⟩

theorem readFrom_of_arr {top : Bool} {kind : Json} {fields : List Json} {t : Node}
    (h : ofJson? top (.arr (kind :: fields)) = some t) : t.ReadFrom (.arr (kind :: fields)) := by
  unfold ofJson? at h
  obtain ⟨k, -, h⟩ := Option.bind_eq_some_iff.1 h
  cases k with
  | root =>
    obtain ⟨ts, hts, rfl⟩ := Option.map_eq_some_iff.1 h
    exact readFrom_of_loneChildren? [kind] hts (depth_toJson_root ts)
  | group =>
    obtain ⟨ts, hts, rfl⟩ := Option.map_eq_some_iff.1 h
    exact readFrom_of_loneChildren? [kind] hts (depth_toJson_group ts)
  | sect =>
    match fields, h with
    | .str name :: ratio :: children, h =>
      obtain ⟨r, -, h⟩ := Option.bind_eq_some_iff.1 h
      obtain ⟨ts, hts, rfl⟩ := Option.map_eq_some_iff.1 h
      exact readFrom_of_loneChildren? [kind, .str name, ratio] hts
        (depth_toJson_sect name r ts)
  | row =>
    match fields, h with
    | [.str text], h =>
      obtain rfl := Option.some.inj h
      exact .inl ⟨rfl, Nat.le_add_left ..⟩

theorem readFrom_of_ofJson? {top : Bool} {j : Json} {t : Node} (h : ofJson? top j = some t) :
    t.ReadFrom j := by
  match j, h with
  | .obj members, h => exact readFrom_of_obj h
  | .arr (kind :: fields), h => exact readFrom_of_arr h

theorem depthItems_toJsons_le {items : List Json} {ts : List Node} (h : ofJsons? items = some ts)
    (hle : ∀ j ∈ items, ∀ t, ofJson? false j = some t → t.toJson.depth ≤ j.depth) :
    depthItems (toJsons ts) ≤ depthItems items := by
  induction items generalizing ts with
  | nil =>
    obtain rfl := Option.some.inj h
    exact Nat.le_refl _
  | cons j js ih =>
    obtain ⟨hj, hjs⟩ := List.forall_mem_cons.1 hle
    rw [ofJsons?] at h
    obtain ⟨t, ht, h⟩ := Option.bind_eq_some_iff.1 h
    obtain ⟨us, hus, rfl⟩ := Option.map_eq_some_iff.1 h
    rw [toJsons, depthItems, depthItems]
    have := hj t ht
    have := ih hus hjs
    omega

/-- The value of a tree nests no deeper than any value the tree is read from. -/
theorem depth_toJson_le {top : Bool} {j : Json} {t : Node} (h : ofJson? top j = some t) :
    t.toJson.depth ≤ j.depth := by
  induction hn : j.depth using Nat.strong_induction_on generalizing top j t with
  | _ n ih =>
    subst hn
    rcases readFrom_of_ofJson? h with ⟨hrow, hle⟩ | ⟨items, ts, hts, hdepth, hle⟩
    · exact hrow.trans_le hle
    · -- the items lie deeper in the value, so they nest less deep than it
      have hitems : depthItems (toJsons ts) ≤ depthItems items := by
        refine depthItems_toJsons_le hts fun j' hj t' ht => ih _ ?_ ht rfl
        have := depthItems_le_iff.1 (Nat.le_refl _) j' hj
        omega
      omega

end Node

namespace Dump

open Node

/-- The dump written anew: the dump of its tree. -/
def reload (text : Text) : Except LoadError Text := (load text).map print

theorem exists_json_of_load {text : Text} {t : Node} (h : load text = .ok t) :
    t.kind = .root ∧ ∃ j, Json.parse? text = some j ∧ ofJson? true j = some t := by
  unfold load at h
  split at h
  · contradiction
  · next tree htree =>
    split at h
    · next hroot =>
      obtain rfl := Except.ok.inj h
      exact ⟨hroot, Option.bind_eq_some_iff.1 htree⟩
    · contradiction

/-- A dump that is loaded, however it is written, nests at least as deep as the dump of its tree,
which is loaded as the same tree; so what is written anew stays as it is from then on. -/
theorem load_print_of_load {text : Text} {t : Node} (h : load text = .ok t) :
    (∃ j, Json.parse? text = some j ∧ t.toJson.depth ≤ j.depth) ∧ load (print t) = .ok t ∧
      reload text = .ok (print t) ∧ reload (print t) = .ok (print t) := by
  obtain ⟨hroot, j, hparse, hread⟩ := exists_json_of_load h
  have hdepth := depth_toJson_le hread
  have hlimit := Json.depth_le_of_parse? hparse
  have hprint : load (print t) = .ok t := by
    cases t with
    | root ts =>
      apply load_of_loadableAt
      rw [loadableAt_iff]
      omega
    | _ => contradiction
  refine ⟨⟨j, hparse, hdepth⟩, hprint, ?_, ?_⟩
  · rw [reload, h]
    rfl
  · rw [reload, hprint]
    rfl

/-- A root as a list, a section as an object with its keys in another order and one key more, and a
section with its kind as a number and its ratio as a list. -/
def sampleDump : Text :=
  (" [\"root\", [\x7b\"z\": [0], \"children\": [[\"row\", \"\\u0061\"]], \"name\": \"s\",\n" ++
    "\"type\": \"section\"\x7d, [1, \"q\", [1, 2], []]]]").toList

theorem load_print_of_load_sampleDump :
    ∃ t, load sampleDump = .ok t ∧ load (print t) = .ok t ∧ reload (print t) = .ok (print t) ∧
      print t = print (.root [.sect "s".toList none [.row "a".toList],
        .sect "q".toList (some ⟨1, 2⟩) []]) := by
  have h : reload sampleDump = .ok (print (.root [.sect "s".toList none [.row "a".toList],
      .sect "q".toList (some ⟨1, 2⟩) []])) := by decide +kernel
  cases ht : load sampleDump with
  | error e =>
    rw [reload, ht] at h
    contradiction
  | ok t =>
    rw [reload, ht] at h
    obtain ⟨-, hload, -, hreload⟩ := load_print_of_load ht
    exact ⟨t, rfl, hload, hreload, Except.ok.inj h⟩

end Dump

end Wireframe
