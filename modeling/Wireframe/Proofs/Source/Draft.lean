import Mathlib.Data.List.Nodup
import Mathlib.Data.List.Perm.Basic
import Mathlib.Logic.Relation
import Wireframe.Source.Draft

/-! Trees taken out of drafts. Where children come after their parents and no draft is held
twice (`Treelike`), the subtree of a draft lists no index twice (`nodup_subtree`). Hence
the loop finds each draft as it was before the build: what it has built and what it has
yet to build always make up the tree of the draft it was started with
(`Build.Inv`), and it ends with that tree (`exists_build?`). -/

namespace Wireframe

namespace Drafts

variable {ds ds' : Drafts} {d : Draft} {id parent child p : Nat} {item : Item}

/-! ### Looking up -/

theorem item?_of_getElem? (h : ds[id]? = some d) : ds.item? id = some d.item := by
  rw [item?, h]
  rfl

theorem childrenOf_of_getElem? (h : ds[id]? = some d) : ds.childrenOf id = d.children := by
  rw [childrenOf, h]
  rfl

theorem exists_getElem?_of_lt (h : id < ds.length) : ∃ d, ds[id]? = some d :=
  ⟨ds[id], List.getElem?_eq_getElem h⟩

theorem lt_of_mem_childrenOf {c : Nat} (h : c ∈ ds.childrenOf id) : id < ds.length := by
  by_contra hid
  rw [childrenOf, List.getElem?_eq_none (Nat.not_lt.1 hid)] at h
  simp at h

@[simp] theorem childrenOf_length : ds.childrenOf ds.length = [] := by
  simp [childrenOf]

theorem mem_links_iff {c : Nat} : c ∈ ds.links ↔ ∃ id, c ∈ ds.childrenOf id := by
  rw [links, List.mem_flatMap]
  constructor
  · rintro ⟨d, hd, hc⟩
    obtain ⟨id, hid⟩ := List.mem_iff_getElem?.1 hd
    exact ⟨id, by rwa [childrenOf_of_getElem? hid]⟩
  · rintro ⟨id, hc⟩
    obtain ⟨d, hd⟩ := exists_getElem?_of_lt (lt_of_mem_childrenOf hc)
    exact ⟨d, List.mem_of_getElem? hd, by rwa [childrenOf_of_getElem? hd] at hc⟩

@[simp] theorem length_add : (ds.add item).length = ds.length + 1 := by
  simp [add]

@[simp] theorem length_attach : (ds.attach parent child).length = ds.length := by
  simp [attach]

theorem getElem?_add_of_ne (h : id ≠ ds.length) : (ds.add item)[id]? = ds[id]? := by
  rcases Nat.lt_or_gt_of_ne h with hlt | hgt
  · exact List.getElem?_append_left hlt
  · rw [List.getElem?_eq_none (by simp; omega), List.getElem?_eq_none (by omega)]

theorem item?_add : (ds.add item).item? ds.length = some item := by
  simp [item?, add]

theorem item?_add_of_ne (h : id ≠ ds.length) : (ds.add item).item? id = ds.item? id := by
  rw [item?, getElem?_add_of_ne h, item?]

@[simp] theorem childrenOf_add : (ds.add item).childrenOf id = ds.childrenOf id := by
  by_cases h : id = ds.length
  · simp [childrenOf, add, h]
  · rw [childrenOf, getElem?_add_of_ne h, childrenOf]

@[simp] theorem links_add : (ds.add item).links = ds.links := by
  simp [links, add]

theorem getElem?_attach_of_ne (h : id ≠ parent) : (ds.attach parent child)[id]? = ds[id]? :=
  List.getElem?_modify_ne _ _ (Ne.symm h)

theorem getElem?_attach (h : ds[parent]? = some d) :
    (ds.attach parent child)[parent]? = some ⟨d.item, d.children ++ [child]⟩ := by
  rw [attach, List.getElem?_modify_eq, h]
  rfl

@[simp] theorem item?_attach : (ds.attach parent child).item? id = ds.item? id := by
  by_cases h : id = parent
  · subst h
    cases hd : ds[id]? with
    | none => simp [item?, attach, hd]
    | some d => rw [item?_of_getElem? hd, item?_of_getElem? (getElem?_attach hd)]
  · rw [item?, getElem?_attach_of_ne h, item?]

theorem childrenOf_attach (h : parent < ds.length) :
    (ds.attach parent child).childrenOf parent = ds.childrenOf parent ++ [child] := by
  obtain ⟨d, hd⟩ := exists_getElem?_of_lt h
  rw [childrenOf_of_getElem? hd, childrenOf_of_getElem? (getElem?_attach hd)]

theorem childrenOf_attach_of_ne (h : id ≠ parent) :
    (ds.attach parent child).childrenOf id = ds.childrenOf id := by
  rw [childrenOf, getElem?_attach_of_ne h, childrenOf]

theorem mem_childrenOf_attach {c : Nat} (hparent : parent < ds.length)
    (hc : c ∈ (ds.attach parent child).childrenOf id) :
    c ∈ ds.childrenOf id ∨ id = parent ∧ c = child := by
  by_cases hid : id = parent
  · rw [hid, childrenOf_attach hparent, List.mem_append, List.mem_singleton] at hc
    exact hc.imp (fun hc => hid ▸ hc) fun hc => ⟨hid, hc⟩
  · rw [childrenOf_attach_of_ne hid] at hc
    exact .inl hc

theorem perm_links_attach (h : parent < ds.length) :
    (ds.attach parent child).links.Perm (child :: ds.links) := by
  obtain ⟨before, d, after, hds, -, hattach⟩ := List.exists_of_modify
    (fun d : Draft => { d with children := d.children ++ [child] }) h
  rw [attach, hattach, hds]
  simp only [links, List.flatMap_append, List.flatMap_cons, List.append_assoc,
    List.singleton_append]
  rw [← List.append_assoc, ← List.append_assoc]
  exact List.perm_middle

/-! ### Kinds of drafts -/

def IsSect (ds : Drafts) (id : Nat) : Prop := ∃ name ratio, ds.item? id = some (.sect name ratio)

/-- The first draft alone is a root, and rows have no children. -/
structure Shaped (ds : Drafts) : Prop where
  root_iff : ∀ id, ds.item? id = some .root ↔ id = 0
  childless : ∀ id text, ds.item? id = some (.row text) → ds.childrenOf id = []

namespace Shaped

theorem start : Shaped start := by
  refine ⟨fun id => ?_, fun id text h => ?_⟩
  · cases id <;> simp [Drafts.start, item?]
  · cases id <;> simp [Drafts.start, item?] at h

theorem add (h : ds.Shaped) (hroot : item ≠ .root) : (ds.add item).Shaped := by
  refine ⟨fun id => ?_, fun id text hrow => ?_⟩
  · by_cases hid : id = ds.length
    · have hpos : ds.length ≠ 0 := by
        intro hnil
        have hfirst := (h.root_iff 0).2 rfl
        rw [List.length_eq_zero_iff.1 hnil] at hfirst
        contradiction
      rw [hid, item?_add]
      exact iff_of_false (fun heq => hroot (Option.some.inj heq)) hpos
    · rw [item?_add_of_ne hid]
      exact h.root_iff id
  · rw [childrenOf_add]
    by_cases hid : id = ds.length
    · rw [hid, childrenOf_length]
    · rw [item?_add_of_ne hid] at hrow
      exact h.childless id text hrow

theorem attach (h : ds.Shaped) (hparent : ∀ text, ds.item? parent ≠ some (.row text)) :
    (ds.attach parent child).Shaped := by
  refine ⟨fun id => ?_, fun id text hrow => ?_⟩
  · rw [item?_attach]
    exact h.root_iff id
  · rw [item?_attach] at hrow
    have hne : id ≠ parent := by
      rintro rfl
      exact hparent text hrow
    rw [childrenOf_attach_of_ne hne]
    exact h.childless id text hrow

end Shaped

/-! ### The recursion -/

theorem fold_of_none {α : Type} {missing : α} {f : Nat → Draft → List α → α} (h : ds[id]? = none) :
    fold missing f ds id = missing := by
  rw [fold]
  split
  · rfl
  · next hd =>
    rw [h] at hd
    contradiction

theorem fold_of_getElem? {α : Type} {missing : α} {f : Nat → Draft → List α → α}
    (h : ds[id]? = some d) :
    fold missing f ds id =
      f id d ((d.children.filter (id < ·)).map (fold missing f ds)) := by
  rw [fold]
  split
  · next hd =>
    rw [h] at hd
    contradiction
  · next e he =>
    obtain rfl := Option.some.inj (h.symm.trans he)
    rw [List.attach_map_val]

/-- A draft that is held by none does not count for the others. -/
theorem fold_congr {α : Type} {missing : α} {f : Nat → Draft → List α → α}
    (h : ∀ id, id ≠ p → ds'[id]? = ds[id]?) (hp : p ∉ ds.links) (hid : id ≠ p) :
    fold missing f ds' id = fold missing f ds id := by
  induction hn : ds.length - id using Nat.strongRecOn generalizing id with
  | ind n ih =>
    cases hd : ds[id]? with
    | none => rw [fold_of_none hd, fold_of_none ((h id hid).trans hd)]
    | some d =>
      rw [fold_of_getElem? hd, fold_of_getElem? ((h id hid).trans hd)]
      congr 1
      refine List.map_congr_left fun c hc => ?_
      obtain ⟨hc, hlt⟩ := List.mem_filter.1 hc
      have hlt : id < c := of_decide_eq_true hlt
      have hlen : id < ds.length := (List.getElem?_eq_some_iff.1 hd).1
      have hne : c ≠ p := by
        rintro rfl
        exact hp (List.mem_flatMap.2 ⟨d, List.mem_of_getElem? hd, hc⟩)
      exact ih (ds.length - c) (by omega) hne rfl

/-- Children are drafts and come after their parents. -/
def Later (ds : Drafts) : Prop := ∀ id, ∀ c ∈ ds.childrenOf id, id < c ∧ c < ds.length

theorem Later.attach (h : ds.Later) (hparent : parent < child) (hchild : child < ds.length) :
    (ds.attach parent child).Later := by
  intro id c hc
  rw [length_attach]
  rcases mem_childrenOf_attach (Nat.lt_trans hparent hchild) hc with hc | ⟨rfl, rfl⟩
  · exact h id c hc
  · exact ⟨hparent, hchild⟩

theorem Later.filter_children (h : ds.Later) (hd : ds[id]? = some d) :
    d.children.filter (id < ·) = d.children := by
  refine List.filter_eq_self.2 fun c hc => decide_eq_true (h id c ?_).1
  rwa [childrenOf_of_getElem? hd]

theorem Later.tree_eq (h : ds.Later) (hi : ds.item? id = some item) :
    ds.tree id = item.toNode ((ds.childrenOf id).map ds.tree) := by
  obtain ⟨d, hd, rfl⟩ := Option.map_eq_some_iff.1 hi
  change fold _ _ ds id = _
  rw [fold_of_getElem? hd, h.filter_children hd, childrenOf_of_getElem? hd]
  rfl

theorem Later.subtree_eq (h : ds.Later) (hid : id < ds.length) :
    ds.subtree id = id :: (ds.childrenOf id).flatMap ds.subtree := by
  obtain ⟨d, hd⟩ := exists_getElem?_of_lt hid
  change fold _ _ ds id = _
  rw [fold_of_getElem? hd, h.filter_children hd, childrenOf_of_getElem? hd, List.flatMap_def]
  rfl

/-- What holds of a draft where it holds of its children holds of all drafts. -/
theorem Later.induction {motive : Nat → Prop} (h : ds.Later)
    (step : ∀ id < ds.length, (∀ c ∈ ds.childrenOf id, motive c) → motive id) :
    ∀ id < ds.length, motive id := by
  intro id hid
  induction hn : ds.length - id using Nat.strongRecOn generalizing id with
  | ind n ih =>
    refine step id hid fun c hc => ?_
    obtain ⟨hlt, hlen⟩ := h id c hc
    exact ih (ds.length - c) (by omega) c hlen rfl

theorem mem_subtree_self (hid : id < ds.length) : id ∈ ds.subtree id := by
  obtain ⟨d, hd⟩ := exists_getElem?_of_lt hid
  rw [subtree, fold_of_getElem? hd]
  exact List.mem_cons_self

/-- No index in a subtree is less than its top. -/
theorem Later.le_of_mem_subtree (h : ds.Later) :
    ∀ id < ds.length, ∀ k ∈ ds.subtree id, id ≤ k ∧ k < ds.length := by
  refine h.induction fun id hid ih k hk => ?_
  rw [h.subtree_eq hid, List.mem_cons, List.mem_flatMap] at hk
  rcases hk with rfl | ⟨c, hc, hk⟩
  · exact ⟨Nat.le_refl k, hid⟩
  · obtain ⟨hle, hlt⟩ := ih c hc k hk
    have := h id c hc
    omega

theorem perm_flatMap_append {α : Type} {S ch : α → List α} {cs : List α}
    (h : ∀ c ∈ cs, (S c).Perm (c :: (S c).flatMap ch)) :
    (cs.flatMap S).Perm (cs ++ (cs.flatMap S).flatMap ch) := by
  induction cs with
  | nil => exact List.Perm.refl _
  | cons c cs ih =>
    obtain ⟨hc, hcs⟩ := List.forall_mem_cons.1 h
    rw [List.flatMap_cons, List.flatMap_append, List.cons_append]
    exact (hc.append (ih hcs)).trans ((List.perm_append_comm_assoc _ _ _).cons c)

/-- A subtree is its top and the children of all its members. -/
theorem Later.perm_subtree (h : ds.Later) : ∀ id < ds.length,
    (ds.subtree id).Perm (id :: (ds.subtree id).flatMap ds.childrenOf) := by
  refine h.induction fun id hid ih => ?_
  have hrest := perm_flatMap_append ih
  rw [h.subtree_eq hid, List.flatMap_cons]
  exact hrest.cons id

theorem Later.mem_subtree_iff {k : Nat} (h : ds.Later) (hid : id < ds.length) :
    k ∈ ds.subtree id ↔ k = id ∨ ∃ parent ∈ ds.subtree id, k ∈ ds.childrenOf parent := by
  rw [(h.perm_subtree id hid).mem_iff, List.mem_cons, List.mem_flatMap]

/-- A draft lies below itself and below what holds it or lies around that. -/
def Below (ds : Drafts) : Nat → Nat → Prop :=
  Relation.ReflTransGen fun parent child => child ∈ ds.childrenOf parent

/-- A subtree has all drafts that lie below its top. -/
theorem Later.mem_subtree_iff_below {k : Nat} (h : ds.Later) (hid : id < ds.length) :
    k ∈ ds.subtree id ↔ ds.Below id k := by
  constructor
  · induction k using Nat.strongRecOn with
    | ind k ih =>
      intro hk
      rcases (h.mem_subtree_iff hid).1 hk with rfl | ⟨parent, hparent, hk⟩
      · exact .refl
      · exact .tail (ih parent (h parent k hk).1 hparent) hk
  · intro hbelow
    induction hbelow with
    | refl => exact mem_subtree_self hid
    | tail _ hk ih => exact (h.mem_subtree_iff hid).2 (.inr ⟨_, ih, hk⟩)

/-! ### Drafts that are held once -/

/-- Children come after their parents, and no draft but the root is held twice. -/
structure Treelike (ds : Drafts) : Prop where
  later : ds.Later
  once : ∀ c, c ≠ 0 → ds.links.count c ≤ 1

theorem Treelike.nodup_links (h : ds.Treelike) : ds.links.Nodup := by
  refine List.nodup_iff_count_le_one.2 fun c => ?_
  by_cases hc : c = 0
  · have hnot : c ∉ ds.links := by
      intro hmem
      obtain ⟨id, hid⟩ := mem_links_iff.1 hmem
      have := h.later id c hid
      omega
    rw [List.count_eq_zero.2 hnot]
    exact Nat.zero_le 1
  · exact h.once c hc

theorem nodup_childrenOf (h : ds.links.Nodup) (id : Nat) : (ds.childrenOf id).Nodup := by
  cases hd : ds[id]? with
  | none => simp [childrenOf, hd]
  | some d =>
    rw [childrenOf_of_getElem? hd]
    exact (List.nodup_flatMap.1 h).1 d (List.mem_of_getElem? hd)

/-- A draft has one parent. -/
theorem parent_unique {p q c : Nat} (h : ds.links.Nodup) (hp : c ∈ ds.childrenOf p)
    (hq : c ∈ ds.childrenOf q) : p = q := by
  have hne : ∀ {p q : Nat}, p < q → c ∈ ds.childrenOf p → c ∉ ds.childrenOf q := by
    intro p q hpq hp hq
    have hqlen := lt_of_mem_childrenOf hq
    have hplen := Nat.lt_trans hpq hqlen
    have hpair := List.pairwise_iff_getElem.1 (List.nodup_flatMap.1 h).2 p q hplen hqlen hpq
    rw [childrenOf_of_getElem? (List.getElem?_eq_getElem hplen)] at hp
    rw [childrenOf_of_getElem? (List.getElem?_eq_getElem hqlen)] at hq
    exact hpair hp hq
  rcases Nat.lt_trichotomy p q with hlt | heq | hgt
  · exact absurd hq (hne hlt hp)
  · exact heq
  · exact absurd hp (hne hgt hq)

/-- Among the children of some drafts, a draft occurs as often as its parent among these. -/
theorem count_flatMap_childrenOf {c : Nat} (h : ds.links.Nodup) (hc : c ∈ ds.childrenOf parent)
    (ids : List Nat) : (ids.flatMap ds.childrenOf).count c = ids.count parent := by
  induction ids with
  | nil => rfl
  | cons id ids ih =>
    rw [List.flatMap_cons, List.count_append, ih, List.count_cons, Nat.add_comm]
    congr 1
    by_cases hid : id = parent
    · subst hid
      simp [List.count_eq_one_of_mem (nodup_childrenOf h id) hc]
    · have hnot : c ∉ ds.childrenOf id := fun hmem => hid (parent_unique h hmem hc)
      simp [List.count_eq_zero.2 hnot, hid]

/-- No index is twice in a subtree: its parent would be so as well. -/
theorem Treelike.nodup_subtree (h : ds.Treelike) (hid : id < ds.length) :
    (ds.subtree id).Nodup := by
  have hperm := h.later.perm_subtree id hid
  refine List.nodup_iff_count_le_one.2 fun k => ?_
  induction k using Nat.strongRecOn with
  | ind k ih =>
    rw [hperm.count_eq, List.count_cons]
    by_cases hk : ∃ parent, k ∈ ds.childrenOf parent
    · obtain ⟨parent, hk⟩ := hk
      have hlt : parent < k := (h.later parent k hk).1
      rw [count_flatMap_childrenOf h.nodup_links hk]
      have hcount := ih parent hlt
      by_cases hkid : id = k
      · -- the parent of the top is not in the subtree
        have hnot : parent ∉ ds.subtree id := by
          intro hmem
          have := h.later.le_of_mem_subtree id hid parent hmem
          omega
        rw [List.count_eq_zero.2 hnot]
        split <;> omega
      · simpa [hkid] using hcount
    · have hnot : k ∉ (ds.subtree id).flatMap ds.childrenOf := by
        intro hmem
        obtain ⟨parent, -, hmem⟩ := List.mem_flatMap.1 hmem
        exact hk ⟨parent, hmem⟩
      rw [List.count_eq_zero.2 hnot]
      split <;> omega

end Drafts

/-! ### The loop -/

/-- A node with the trees of its pending children. -/
def HalfBuilt.completed (ds : Drafts) (h : HalfBuilt) : Node :=
  h.item.toNode (h.built ++ h.pending.map ds.tree)

namespace Build

variable {ds : Drafts} {id c : Nat} {b b' : Build}

theorem turn_of_pending {pending : List Nat} {taken : HalfBuilt} {drafts : Drafts}
    (hp : b.current.pending = c :: pending) (ht : b.drafts.take? c = some (taken, drafts)) :
    b.turn = .next ⟨drafts, b.taken ++ [c], taken, { b.current with pending } :: b.around⟩ := by
  rw [turn, hp]
  dsimp only
  rw [ht]

theorem turn_of_parent {parent : HalfBuilt} {around : List HalfBuilt}
    (hp : b.current.pending = []) (ha : b.around = parent :: around) :
    b.turn = .next { b with current := parent.push b.current.toNode, around } := by
  rw [turn, hp, ha]

theorem turn_of_nil (hp : b.current.pending = []) (ha : b.around = []) :
    b.turn = .done b.current.toNode := by
  rw [turn, hp, ha]

theorem run_of_next (h : b.turn = .next b') : b.run = b'.run := by
  rw [run]
  split
  · next ht =>
    rw [h] at ht
    contradiction
  · next ht =>
    obtain rfl := Turn.next.inj (h.symm.trans ht)
    rfl
  · next ht =>
    rw [h] at ht
    contradiction

theorem run_of_done {t : Node} (h : b.turn = .done t) : b.run = some (t, b) := by
  rw [run]
  split
  · next ht =>
    rw [h] at ht
    contradiction
  · next ht =>
    rw [h] at ht
    contradiction
  · next ht =>
    obtain rfl := Turn.done.inj (h.symm.trans ht)
    rfl

/-- The tree that the nodes around a tree make with it and all that is pending. -/
def enclose (ds : Drafts) (t : Node) : List HalfBuilt → Node
  | [] => t
  | parent :: around => enclose ds ((parent.push t).completed ds) around

/-- What holds from turn to turn while draft `id` of the drafts `ds` is built. -/
structure Inv (ds : Drafts) (id : Nat) (b : Build) : Prop where
  /-- What is built makes up the tree of the draft with what is pending. -/
  tree_eq : enclose ds (b.current.completed ds) b.around = ds.tree id
  /-- What is taken makes up the subtree of the draft with what is waiting, in order. -/
  subtree_eq : b.taken ++ b.waiting.flatMap ds.subtree = ds.subtree id
  /-- What is not taken is left as it was. -/
  left : ∀ k, b.drafts[k]? = if k ∈ b.taken then some Draft.taken else ds[k]?
  waiting_lt : ∀ c ∈ b.waiting, c < ds.length

/-- A draft is read once: no index that waits was taken before. -/
theorem Inv.notMem_taken (h : Inv ds id b) (hnodup : (ds.subtree id).Nodup)
    (hc : c ∈ b.waiting) : c ∉ b.taken := by
  rw [← h.subtree_eq] at hnodup
  intro hmem
  refine (List.nodup_append'.1 hnodup).2.2 hmem (List.mem_flatMap.2 ⟨c, hc, ?_⟩)
  exact Drafts.mem_subtree_self (h.waiting_lt c hc)

theorem getElem?_set_taken {drafts : Drafts} (taken : List Nat)
    (h : ∀ k, drafts[k]? = if k ∈ taken then some Draft.taken else ds[k]?) (hc : c < ds.length)
    (hnot : c ∉ taken) (k : Nat) :
    (drafts.set c Draft.taken)[k]? = if k ∈ taken ++ [c] then some Draft.taken else ds[k]? := by
  have hlen : c < drafts.length := by
    have hsome := h c
    rw [if_neg hnot, List.getElem?_eq_getElem hc] at hsome
    exact (List.getElem?_eq_some_iff.1 hsome).1
  by_cases hk : c = k
  · subst hk
    simp [hlen]
  · rw [List.getElem?_set_ne hk, h k]
    simp [Ne.symm hk]

/-- The next child is taken as it was in the drafts. -/
theorem Inv.take {pending : List Nat} (h : Inv ds id b) (hl : ds.Later)
    (hnodup : (ds.subtree id).Nodup) (hp : b.current.pending = c :: pending) :
    ∃ b', b.turn = .next b' ∧ Inv ds id b' := by
  have hwait : b.waiting = c :: (pending ++ b.around.flatMap (·.pending)) := by
    rw [waiting, hp]
    rfl
  have hc : c < ds.length := h.waiting_lt c (by simp [hwait])
  have hnot : c ∉ b.taken := h.notMem_taken hnodup (by simp [hwait])
  obtain ⟨d, hd⟩ := Drafts.exists_getElem?_of_lt hc
  have htake : b.drafts.take? c = some (⟨d.item, d.children, []⟩, b.drafts.set c Draft.taken) := by
    rw [Drafts.take?, h.left c, if_neg hnot, hd]
    rfl
  refine ⟨_, turn_of_pending hp htake, ?_, ?_, ?_, ?_⟩
  · rw [← h.tree_eq, enclose, HalfBuilt.completed, HalfBuilt.completed, HalfBuilt.completed, hp]
    simp only [HalfBuilt.push, List.nil_append, List.map_cons, List.append_assoc,
      List.singleton_append]
    rw [hl.tree_eq (Drafts.item?_of_getElem? hd), Drafts.childrenOf_of_getElem? hd]
  · rw [← h.subtree_eq, hwait]
    simp only [waiting, List.flatMap_cons, List.flatMap_append, List.append_assoc]
    rw [hl.subtree_eq hc, Drafts.childrenOf_of_getElem? hd]
    simp
  · exact getElem?_set_taken b.taken h.left hc hnot
  · intro k hk
    simp only [waiting, List.flatMap_cons, List.mem_append] at hk
    rcases hk with hk | hk
    · exact (hl c k (by rwa [Drafts.childrenOf_of_getElem? hd])).2
    · exact h.waiting_lt k (by
        rw [hwait, List.mem_cons, List.mem_append]
        exact .inr hk)

/-- A node without pending children goes to the node around it. -/
theorem Inv.resume {parent : HalfBuilt} {around : List HalfBuilt} (h : Inv ds id b)
    (hp : b.current.pending = []) (ha : b.around = parent :: around) :
    ∃ b', b.turn = .next b' ∧ Inv ds id b' := by
  have hwait : b.waiting = parent.pending ++ around.flatMap (·.pending) := by
    rw [waiting, hp, ha]
    rfl
  refine ⟨_, turn_of_parent hp ha, ?_, ?_, h.left, ?_⟩
  · rw [← h.tree_eq, ha, enclose]
    simp only [HalfBuilt.completed, hp, List.map_nil, List.append_nil, HalfBuilt.toNode]
  · rw [← h.subtree_eq, hwait]
    rfl
  · intro k hk
    exact h.waiting_lt k (by rw [hwait]; exact hk)

/-- Without nodes around it, it is the tree of the draft. -/
theorem Inv.done (h : Inv ds id b) (hp : b.current.pending = []) (ha : b.around = []) :
    b.turn = .done (ds.tree id) ∧ b.taken = ds.subtree id := by
  constructor
  · rw [turn_of_nil hp ha, ← h.tree_eq, ha, enclose, HalfBuilt.completed, hp, List.map_nil,
      List.append_nil]
    rfl
  · rw [← h.subtree_eq, waiting, hp, ha]
    simp

theorem Inv.run (h : Inv ds id b) (hl : ds.Later) (hnodup : (ds.subtree id).Nodup) :
    ∃ last, b.run = some (ds.tree id, last) ∧ Inv ds id last ∧ last.taken = ds.subtree id := by
  induction hn : b.work using Nat.strongRecOn generalizing b with
  | ind n ih =>
    have hnext : (∃ b', b.turn = .next b' ∧ Inv ds id b') →
        ∃ last, b.run = some (ds.tree id, last) ∧ Inv ds id last ∧ last.taken = ds.subtree id := by
      rintro ⟨b', hturn, hinv⟩
      rw [run_of_next hturn]
      exact ih b'.work (hn ▸ work_turn_lt hturn) hinv rfl
    cases hp : b.current.pending with
    | cons c pending => exact hnext (h.take hl hnodup hp)
    | nil =>
      cases ha : b.around with
      | cons parent around => exact hnext (h.resume hp ha)
      | nil =>
        obtain ⟨hturn, htaken⟩ := h.done hp ha
        exact ⟨b, run_of_done hturn, h, htaken⟩

end Build

namespace Drafts

/-- The loop gives the tree of the recursion, takes the drafts of the subtree one by one in its
order, and leaves all others as they are. -/
theorem Treelike.exists_build? {ds : Drafts} {id : Nat} (h : ds.Treelike) (hid : id < ds.length) :
    ∃ last, ds.build? id = some (ds.tree id, last) ∧ last.taken = ds.subtree id ∧
      ∀ k, last.drafts[k]? = if k ∈ ds.subtree id then some Draft.taken else ds[k]? := by
  obtain ⟨d, hd⟩ := exists_getElem?_of_lt hid
  have hstart : Build.Inv ds id ⟨ds.set id Draft.taken, [id], ⟨d.item, d.children, []⟩, []⟩ := by
    constructor
    · rw [h.later.tree_eq (item?_of_getElem? hd), childrenOf_of_getElem? hd]
      rfl
    · rw [h.later.subtree_eq hid, childrenOf_of_getElem? hd]
      simp [Build.waiting]
    · exact Build.getElem?_set_taken [] (by simp) hid (by simp)
    · intro c hc
      refine (h.later id c ?_).2
      rw [childrenOf_of_getElem? hd]
      simpa [Build.waiting] using hc
  obtain ⟨last, hrun, hinv, htaken⟩ := hstart.run h.later (h.nodup_subtree hid)
  refine ⟨last, ?_, htaken, fun k => htaken ▸ hinv.left k⟩
  rw [build?, take?, hd]
  exact hrun

end Drafts

end Wireframe
