import Wireframe.Proofs.Source.Outline

/-! Addresses of nodes. The address of a node lists the places taken among siblings on
the way down to it from the top, so one node lies above another exactly when its
address is a proper prefix of the other's. The addresses of a tree are listed in
document order, like its items. In this order the nodes below a node follow it at
once, and the next one after them lies no deeper (`Leads`): so the depths alone tell
which nodes lie below which (`prefix_iff_deeper`). -/

namespace Wireframe

/-- The places taken among siblings on the way down from the top. -/
abbrev Address := List Nat

namespace Address

/-- The node at the first address lies above the node at the second. -/
def Above (b a : Address) : Prop := b <+: a ∧ b ≠ a

/-! ### Document order -/

/-- What follows an address in document order: first the addresses below it, then others, the first
of which is no longer. -/
def Leads (a : Address) (following : List Address) : Prop :=
  ∃ inner outer, following = inner ++ outer ∧
    (∀ b ∈ inner, a <+: b ∧ a.length < b.length) ∧
    (∀ b ∈ outer, ¬ a <+: b ∧ ¬ b <+: a) ∧ ∀ b ∈ outer.head?, b.length ≤ a.length

/-- Each address leads what follows it. -/
def Ordered : List Address → Prop
  | [] => True
  | a :: following => Leads a following ∧ Ordered following

theorem Leads.map_cons {a : Address} {following : List Address} (h : Leads a following) (n : Nat) :
    Leads (n :: a) (following.map (n :: ·)) := by
  obtain ⟨inner, outer, rfl, hi, ho, hh⟩ := h
  refine ⟨inner.map (n :: ·), outer.map (n :: ·), List.map_append, ?_, ?_, ?_⟩
  · intro b hb
    obtain ⟨c, hc, rfl⟩ := List.mem_map.1 hb
    obtain ⟨hp, hl⟩ := hi c hc
    exact ⟨List.cons_prefix_cons.2 ⟨rfl, hp⟩, Nat.succ_lt_succ hl⟩
  · intro b hb
    obtain ⟨c, hc, rfl⟩ := List.mem_map.1 hb
    obtain ⟨h1, h2⟩ := ho c hc
    exact ⟨fun hp => h1 (List.cons_prefix_cons.1 hp).2, fun hp => h2 (List.cons_prefix_cons.1 hp).2⟩
  · intro b hb
    rw [List.head?_map, Option.mem_def, Option.map_eq_some_iff] at hb
    obtain ⟨c, hc, rfl⟩ := hb
    exact Nat.succ_le_succ (hh c hc)

theorem Leads.append {a : Address} {following more : List Address} (h : Leads a following)
    (hm : ∀ b ∈ more, ¬ a <+: b ∧ ¬ b <+: a) (hh : ∀ b ∈ more.head?, b.length ≤ a.length) :
    Leads a (following ++ more) := by
  obtain ⟨inner, outer, rfl, hi, ho, hh'⟩ := h
  refine ⟨inner, outer ++ more, List.append_assoc .., hi, ?_, ?_⟩
  · intro b hb
    rcases List.mem_append.1 hb with hb | hb
    · exact ho b hb
    · exact hm b hb
  · intro b hb
    cases outer with
    | nil => exact hh b hb
    | cons c outer => exact hh' b hb

theorem Ordered.map_cons {addresses : List Address} (h : Ordered addresses) (n : Nat) :
    Ordered (addresses.map (n :: ·)) := by
  induction addresses with
  | nil => trivial
  | cons a following ih => exact ⟨h.1.map_cons n, ih h.2⟩

theorem Ordered.append {addresses more : List Address} (h : Ordered addresses) (h' : Ordered more)
    (hm : ∀ a ∈ addresses, ∀ b ∈ more, ¬ a <+: b ∧ ¬ b <+: a)
    (hh : ∀ a ∈ addresses, ∀ b ∈ more.head?, b.length ≤ a.length) :
    Ordered (addresses ++ more) := by
  induction addresses with
  | nil => exact h'
  | cons a following ih =>
    refine ⟨h.1.append (hm a (by simp)) (hh a (by simp)), ?_⟩
    exact ih h.2 (fun b hb => hm b (by simp [hb])) fun b hb => hh b (by simp [hb])

theorem Ordered.drop {addresses : List Address} (h : Ordered addresses) (n : Nat) :
    Ordered (addresses.drop n) := by
  induction n generalizing addresses with
  | zero => exact h
  | succ n ih =>
    cases addresses with
    | nil => exact h
    | cons a following => exact ih h.2

theorem Leads.prefix_iff {a b : Address} {following : List Address} (h : Leads a following)
    {n : Nat} (hb : following[n]? = some b) :
    a <+: b ↔ ∀ k c, k ≤ n → following[k]? = some c → a.length < c.length := by
  obtain ⟨inner, outer, rfl, hi, ho, hh⟩ := h
  by_cases hn : n < inner.length
  · refine iff_of_true ?_ fun k c hk hc => ?_
    · rw [List.getElem?_append_left hn] at hb
      exact (hi b (List.mem_of_getElem? hb)).1
    · rw [List.getElem?_append_left (by omega)] at hc
      exact (hi c (List.mem_of_getElem? hc)).2
  · rw [List.getElem?_append_right (by omega)] at hb
    refine iff_of_false (ho b (List.mem_of_getElem? hb)).1 fun hall => ?_
    -- the first address that does not lie below `a` is not longer
    cases outer with
    | nil => simp at hb
    | cons c outer =>
      have hc : (inner ++ c :: outer)[inner.length]? = some c := by simp
      have := hall inner.length c (by omega) hc
      have := hh c rfl
      omega

theorem Leads.not_above {a b : Address} {following : List Address} (h : Leads a following)
    (hb : b ∈ following) : ¬ Above b a := by
  obtain ⟨inner, outer, rfl, hi, ho, -⟩ := h
  rintro ⟨hp, -⟩
  rcases List.mem_append.1 hb with hb | hb
  · have h1 := hp.length_le
    have h2 := (hi b hb).2
    omega
  · exact (ho b hb).2 hp

theorem leads_of_getElem? {addresses : List Address} (h : Ordered addresses) {m : Nat} {a : Address}
    (hm : addresses[m]? = some a) : Leads a (addresses.drop (m + 1)) := by
  obtain ⟨hlt, rfl⟩ := List.getElem?_eq_some_iff.1 hm
  have hd := h.drop m
  rw [List.drop_eq_getElem_cons hlt] at hd
  exact hd.1

/-- A node lies below an earlier one exactly when all nodes since lie deeper than that one. -/
theorem prefix_iff_deeper {addresses : List Address} (h : Ordered addresses) {m n : Nat}
    {a b : Address} (hm : addresses[m]? = some a) (hn : addresses[n]? = some b) (hlt : m < n) :
    a <+: b ↔ ∀ k c, m < k → k ≤ n → addresses[k]? = some c → a.length < c.length := by
  have hb : (addresses.drop (m + 1))[n - (m + 1)]? = some b := by
    rw [List.getElem?_drop, show m + 1 + (n - (m + 1)) = n by omega, hn]
  rw [(leads_of_getElem? h hm).prefix_iff hb]
  constructor
  · intro hall k c hk hkn hc
    refine hall (k - (m + 1)) c (by omega) ?_
    rw [List.getElem?_drop, show m + 1 + (k - (m + 1)) = k by omega, hc]
  · intro hall k c hk hc
    rw [List.getElem?_drop] at hc
    exact hall (m + 1 + k) c (by omega) (by omega) hc

/-- No node lies above an earlier one. -/
theorem not_above_of_le {addresses : List Address} (h : Ordered addresses) {m n : Nat}
    {a b : Address} (hm : addresses[m]? = some a) (hn : addresses[n]? = some b) (hle : m ≤ n) :
    ¬ Above b a := by
  rcases Nat.eq_or_lt_of_le hle with rfl | hlt
  · rintro ⟨-, hne⟩
    exact hne (Option.some.inj (hn.symm.trans hm))
  · refine (leads_of_getElem? h hm).not_above (List.mem_of_getElem? (i := n - (m + 1)) ?_)
    rw [List.getElem?_drop, show m + 1 + (n - (m + 1)) = n by omega, hn]

end Address

/-! ### The addresses of a tree -/

namespace Node

open Address Outline

mutual

/-- The addresses of all nodes in document order. -/
def addresses : Node → List Address
  | root children => [] :: addressesFrom 0 children
  | sect _ _ children => [] :: addressesFrom 0 children
  | group children => [] :: addressesFrom 0 children
  | row _ => [[]]

/-- The addresses of the nodes of trees that stand side by side, the first at the given place. -/
def addressesFrom (place : Nat) : List Node → List Address
  | [] => []
  | t :: ts => (addresses t).map (place :: ·) ++ addressesFrom (place + 1) ts

end

/-- The node at an address. -/
def at? : Address → Node → Option Node
  | [], t => some t
  | place :: a, t => t.children[place]?.bind (at? a)

theorem exists_cons_of_mem_addressesFrom {place : Nat} {ts : List Node} {a : Address}
    (h : a ∈ addressesFrom place ts) : ∃ n b, a = n :: b ∧ place ≤ n := by
  induction ts generalizing place with
  | nil => simp [addressesFrom] at h
  | cons t ts ih =>
    rw [addressesFrom, List.mem_append, List.mem_map] at h
    rcases h with ⟨b, -, rfl⟩ | h
    · exact ⟨place, b, rfl, Nat.le_refl place⟩
    · obtain ⟨n, b, rfl, hn⟩ := ih h
      exact ⟨n, b, rfl, by omega⟩

theorem length_head?_addressesFrom {place : Nat} {ts : List Node} :
    ∀ b ∈ (addressesFrom place ts).head?, b.length = 1 := by
  cases ts with
  | nil => simp [addressesFrom]
  | cons t ts => cases t <;> simp [addressesFrom, addresses]

theorem ordered_nil_cons {place : Nat} {ts : List Node} (h : Ordered (addressesFrom place ts)) :
    Ordered ([] :: addressesFrom place ts) := by
  refine ⟨⟨addressesFrom place ts, [], (List.append_nil _).symm, fun b hb => ?_, by simp, by simp⟩, h⟩
  obtain ⟨n, c, rfl, -⟩ := exists_cons_of_mem_addressesFrom hb
  exact ⟨List.nil_prefix, Nat.succ_pos _⟩

mutual

/-- The addresses of a tree stand in document order. -/
theorem ordered_addresses (t : Node) : Ordered t.addresses := by
  cases t with
  | root ts => exact ordered_nil_cons (ordered_addressesFrom 0 ts)
  | sect name ratio ts => exact ordered_nil_cons (ordered_addressesFrom 0 ts)
  | group ts => exact ordered_nil_cons (ordered_addressesFrom 0 ts)
  | row text => exact ⟨⟨[], [], rfl, by simp, by simp, by simp⟩, trivial⟩

theorem ordered_addressesFrom (place : Nat) (ts : List Node) :
    Ordered (addressesFrom place ts) := by
  cases ts with
  | nil => trivial
  | cons t ts =>
    refine ((ordered_addresses t).map_cons place).append (ordered_addressesFrom (place + 1) ts) ?_ ?_
    · intro a ha b hb
      obtain ⟨a', -, rfl⟩ := List.mem_map.1 ha
      obtain ⟨n, b', rfl, hn⟩ := exists_cons_of_mem_addressesFrom hb
      constructor <;> intro hp <;> have := (List.cons_prefix_cons.1 hp).1 <;> omega
    · intro a ha b hb
      obtain ⟨a', -, rfl⟩ := List.mem_map.1 ha
      rw [length_head?_addressesFrom b hb, List.length_cons]
      omega

end

mutual

/-- A node's depth in the outline is the length of its address. -/
theorem map_depth_outline (d : Nat) (t : Node) :
    (t.outline d).map (·.depth + 1) = t.addresses.map (d + 1 + ·.length) := by
  cases t with
  | row text => rfl
  | root ts =>
    rw [outline, addresses, List.map_cons, List.map_cons, map_depth_outlineAll (d + 1) 0 ts]
    rfl
  | sect name ratio ts =>
    rw [outline, addresses, List.map_cons, List.map_cons, map_depth_outlineAll (d + 1) 0 ts]
    rfl
  | group ts =>
    rw [outline, addresses, List.map_cons, List.map_cons, map_depth_outlineAll (d + 1) 0 ts]
    rfl

theorem map_depth_outlineAll (d place : Nat) (ts : List Node) :
    (outlineAll d ts).map (·.depth + 1) = (addressesFrom place ts).map (d + ·.length) := by
  cases ts with
  | nil => rfl
  | cons t ts =>
    rw [outlineAll, addressesFrom, List.map_append, List.map_append, List.map_map,
      map_depth_outline d t, map_depth_outlineAll d (place + 1) ts]
    congr 2
    funext a
    simp only [Function.comp_apply, List.length_cons]
    omega

end

mutual

theorem map_at?_addresses (t : Node) :
    t.addresses.map (fun a => (t.at? a).map item) = t.items.map some := by
  cases t with
  | row text => rfl
  | root ts =>
    rw [addresses, List.map_cons, map_at?_addressesFrom (.root ts) 0 ts rfl]
    rfl
  | sect name ratio ts =>
    rw [addresses, List.map_cons, map_at?_addressesFrom (.sect name ratio ts) 0 ts rfl]
    rfl
  | group ts =>
    rw [addresses, List.map_cons, map_at?_addressesFrom (.group ts) 0 ts rfl]
    rfl

theorem map_at?_addressesFrom (parent : Node) (place : Nat) (ts : List Node)
    (h : parent.children.drop place = ts) :
    (addressesFrom place ts).map (fun a => (parent.at? a).map item) = (itemsAll ts).map some := by
  cases ts with
  | nil => rfl
  | cons t ts =>
    have ht : parent.children[place]? = some t := by
      have := congrArg (·[0]?) h
      simpa using this
    have hts : parent.children.drop (place + 1) = ts := by
      rw [← List.drop_drop, h]
      rfl
    rw [addressesFrom, itemsAll, List.map_append, List.map_append, List.map_map,
      map_at?_addressesFrom parent (place + 1) ts hts, ← map_at?_addresses t]
    congr 2
    funext a
    simp [at?, ht]

end

end Node

end Wireframe
