import Wireframe.Proofs.Node.Address
import Wireframe.Proofs.Source.Scope

/-! The scopes of the parser are the open lines, and the open lines are the ancestors.
While the lines are read, the scopes left open are those of the live lines, the latest
first (`Tracks`), so the depth of each entry is the number of lines open at it, and in
the tree the node of one line lies above the node of another exactly when the first
line is open at the second (`above_iff_openAt`). -/

namespace Wireframe.Source

open Node Outline Address

variable {lines : List Line}

/-! ### The scopes of lines -/

/-- The scope that line `i` opens. -/
def scopeAt? (lines : List Line) (i : Nat) : Option Scope :=
  lines[i]?.bind fun line =>
    match line.form with
    | .close => none
    | .item item => scopeOf? line.indent item

theorem form_of_itemAt {i : Nat} (h : ItemAt lines i) :
    ∃ line item, lines[i]? = some line ∧ line.form = .item item := by
  obtain ⟨line, hl, ht⟩ := h
  cases hf : line.form with
  | close => exact absurd (read_eq_close_iff.1 hf) ht
  | item item => exact ⟨line, item, hl, hf⟩

theorem itemAt_of_form {i : Nat} {line : Line} {item : Item} (hl : lines[i]? = some line)
    (hf : line.form = .item item) : ItemAt lines i := by
  refine ⟨line, hl, fun ht => ?_⟩
  have hc : line.form = .close := read_eq_close_iff.2 ht
  rw [hf] at hc
  contradiction

theorem scopeAt?_of_form {i : Nat} {line : Line} {item : Item} (hl : lines[i]? = some line)
    (hf : line.form = .item item) : scopeAt? lines i = scopeOf? (indentAt lines i) item := by
  simp [scopeAt?, indentAt, hl, hf]

theorem scopeAt?_of_groupAt {i : Nat} (h : GroupAt lines i) : scopeAt? lines i = some .group := by
  obtain ⟨line, hl, ht⟩ := h
  have hf : line.form = .item .group := read_eq_group_iff.2 ht
  rw [scopeAt?_of_form hl hf]
  rfl

theorem scopeAt?_of_sectAt {i : Nat} (h : SectAt lines i) :
    scopeAt? lines i = some (.sect (indentAt lines i)) := by
  obtain ⟨line, hl, ht⟩ := h
  have hf : line.form = .item (.sect (readHeader line.text).1 (readHeader line.text).2) :=
    read_eq_sect_iff.2 ⟨ht, rfl⟩
  rw [scopeAt?_of_form hl hf]
  rfl

theorem groupAt_or_sectAt_of_scopeAt? {i : Nat} {scope : Scope} (h : scopeAt? lines i = some scope) :
    GroupAt lines i ∨ SectAt lines i := by
  simp only [scopeAt?, Option.bind_eq_some_iff] at h
  obtain ⟨line, hl, h⟩ := h
  cases hf : line.form with
  | close => simp [hf] at h
  | item item =>
    rw [hf] at h
    cases item with
    | root => simp [scopeOf?] at h
    | row text => simp [scopeOf?] at h
    | group => exact .inl ⟨line, hl, read_eq_group_iff.1 hf⟩
    | sect name ratio => exact .inr ⟨line, hl, (read_eq_sect_iff.1 hf).1⟩

/-! ### The stack of scopes -/

/-- The scopes of the lines with property `p`, the latest first, each with its line. -/
structure Tracks (lines : List Line) (p : Nat → Prop) (stack : List (Nat × Scope)) : Prop where
  latest_first : stack.Pairwise fun x y => y.1 < x.1
  mem_iff : ∀ j scope, (j, scope) ∈ stack ↔ p j ∧ scopeAt? lines j = some scope

theorem mem_dropWhile_iff {q : Nat × Scope → Bool} {stack : List (Nat × Scope)}
    (h : stack.Pairwise fun x y => y.1 < x.1) (x : Nat × Scope) :
    x ∈ stack.dropWhile q ↔ x ∈ stack ∧ ∃ y ∈ stack, x.1 ≤ y.1 ∧ q y = false := by
  induction stack with
  | nil => simp
  | cons y stack ih =>
    rw [List.pairwise_cons] at h
    by_cases hq : q y = true
    · rw [List.dropWhile_cons, if_pos hq, ih h.2]
      constructor
      · rintro ⟨hx, z, hz, hxz, hqz⟩
        exact ⟨List.mem_cons_of_mem _ hx, z, List.mem_cons_of_mem _ hz, hxz, hqz⟩
      · rintro ⟨hx, z, hz, hxz, hqz⟩
        rcases List.mem_cons.1 hz with rfl | hz'
        · simp [hq] at hqz
        · rcases List.mem_cons.1 hx with rfl | hx'
          · have := h.1 z hz'
            omega
          · exact ⟨hx', z, hz', hxz, hqz⟩
    · rw [List.dropWhile_cons, if_neg hq]
      constructor
      · intro hx
        refine ⟨hx, y, List.mem_cons_self, ?_, by simpa using hq⟩
        rcases List.mem_cons.1 hx with rfl | hx
        · exact Nat.le_refl _
        · exact Nat.le_of_lt (h.1 x hx)
      · exact (·.1)

/-- A section that a later open scope keeps open is shielded by that scope, or by what shielded the
later one from it. -/
theorem Tracks.shielded_of_stays {i j y : Nat} {scope : Scope} {stack : List (Nat × Scope)}
    (h : Tracks lines (LiveAt lines · i) stack) (hj : LiveAt lines j i) (hs : SectAt lines j)
    (hy : (y, scope) ∈ stack) (hjy : j ≤ y) (hends : scope.endsAt (indentAt lines i) = false) :
    Shielded lines j i := by
  intro _ hind
  obtain ⟨hlive, hscope⟩ := (h.mem_iff y scope).1 hy
  rcases hlive.2 with hun | ⟨hysect, hyencl, -⟩
  · have hne : j ≠ y := by
      rintro rfl
      exact hun.1.not_sectAt hs
    exact ⟨y, by omega, hlive.1, hun⟩
  · rw [scopeAt?_of_sectAt hysect, Option.some.injEq] at hscope
    subst hscope
    simp only [Scope.endsAt, decide_eq_false_iff_not] at hends
    have hne : j ≠ y := by
      rintro rfl
      exact hends hind
    rcases hj.2 with hun | ⟨-, -, hsh⟩
    · exact absurd hs hun.1.not_sectAt
    · -- the later section is indented less than this one, so a group between them shields it
      obtain ⟨g, hjg, hgy, hun⟩ := hsh y (by omega) hlive.1 hysect.itemAt (by omega)
      exact ⟨g, hjg, Nat.lt_trans hgy hlive.1, hun.extend hgy hysect.itemAt hyencl⟩

/-- A live line that an item does not end has its own scope or a later one that stays open. -/
theorem Tracks.exists_stays {i j : Nat} {stack : List (Nat × Scope)}
    (h : Tracks lines (LiveAt lines · i) stack) (hi : ItemAt lines i) (hj : LiveAt lines j i)
    (hsh : SectAt lines j → Shielded lines j i) :
    ∃ y ∈ stack, j ≤ y.1 ∧ y.2.endsAt (indentAt lines i) = false := by
  have hgroup : ∀ g, g < i → Unclosed lines g i → (g, .group) ∈ stack := fun g hgi hun =>
    (h.mem_iff g .group).2 ⟨⟨hgi, .inl hun⟩, scopeAt?_of_groupAt hun.1⟩
  rcases hj.2 with hun | ⟨hsect, -, -⟩
  · exact ⟨_, hgroup j hj.1 hun, Nat.le_refl j, rfl⟩
  · by_cases hind : indentAt lines i ≤ indentAt lines j
    · obtain ⟨g, hjg, hgi, hun⟩ := hsh hsect hi hind
      exact ⟨_, hgroup g hgi hun, Nat.le_of_lt hjg, rfl⟩
    · refine ⟨_, (h.mem_iff j _).2 ⟨hj, scopeAt?_of_sectAt hsect⟩, Nat.le_refl j, ?_⟩
      simpa [Scope.endsAt] using hind

/-- An item leaves the scopes of the lines that are open at it. -/
theorem Tracks.dropWhile {i : Nat} {stack : List (Nat × Scope)}
    (h : Tracks lines (LiveAt lines · i) stack) (hi : ItemAt lines i) :
    Tracks lines (OpenAt lines · i)
      (stack.dropWhile (Scope.endsAt (indentAt lines i) ∘ Prod.snd)) := by
  refine ⟨h.latest_first.sublist (List.dropWhile_sublist _), fun j scope => ?_⟩
  rw [mem_dropWhile_iff h.latest_first, h.mem_iff, openAt_iff_liveAt, and_right_comm]
  apply and_congr_left
  intro hs
  apply and_congr_right
  intro hj
  constructor
  · rintro ⟨⟨y, scope'⟩, hy, hjy, hends⟩ hsect
    exact h.shielded_of_stays hj hsect hy hjy hends
  · exact fun hsh => h.exists_stays hi hj hsh

/-- An item puts its scope, if it has one, on those of the lines open at it. -/
theorem Tracks.push {i : Nat} {stack : List (Nat × Scope)}
    (h : Tracks lines (OpenAt lines · i) stack) (hi : ItemAt lines i) :
    Tracks lines (LiveAt lines · (i + 1))
      ((scopeAt? lines i).toList.map (Prod.mk i) ++ stack) := by
  constructor
  · rw [List.pairwise_append]
    refine ⟨?_, h.latest_first, ?_⟩
    · cases scopeAt? lines i <;> simp
    · rintro ⟨j, scope⟩ hj ⟨k, scope'⟩ hk
      obtain ⟨_, -, hj⟩ := List.mem_map.1 hj
      obtain ⟨rfl, -⟩ := Prod.mk.inj hj
      exact ((h.mem_iff k scope').1 hk).1.1
  · intro j scope
    rw [List.mem_append, h.mem_iff, liveAt_succ_of_itemAt hi, or_and_right, or_comm]
    refine or_congr Iff.rfl ?_
    simp only [List.mem_map, Option.mem_toList, Prod.mk.injEq]
    constructor
    · rintro ⟨_, hs, rfl, rfl⟩
      exact ⟨⟨rfl, groupAt_or_sectAt_of_scopeAt? hs⟩, hs⟩
    · rintro ⟨⟨rfl, -⟩, hs⟩
      exact ⟨scope, hs, rfl, rfl⟩

theorem closeGroup?_map_snd {stack : List (Nat × Scope)} {outer : List Scope}
    (h : closeGroup? (stack.map Prod.snd) = some outer) :
    ∃ before g stack', stack = before ++ (g, .group) :: stack' ∧ outer = stack'.map Prod.snd ∧
      ∀ x ∈ before, x.2 ≠ .group := by
  induction stack with
  | nil => contradiction
  | cons x stack ih =>
    obtain ⟨j, scope⟩ := x
    cases scope with
    | group => exact ⟨[], j, stack, rfl, (Option.some.inj h).symm, by simp⟩
    | sect own =>
      obtain ⟨before, g, stack', rfl, ho, hb⟩ := ih h
      refine ⟨(j, .sect own) :: before, g, stack', rfl, ho, fun x hx => ?_⟩
      rcases List.mem_cons.1 hx with rfl | hx
      · simp
      · exact hb x hx

/-- A closing bracket is paired with the first group in the stack. -/
theorem Tracks.paired {i g : Nat} {before stack : List (Nat × Scope)}
    (h : Tracks lines (LiveAt lines · i) (before ++ (g, .group) :: stack)) (hc : ClosesAt lines i)
    (hb : ∀ x ∈ before, x.2 ≠ .group) : Paired lines i g := by
  obtain ⟨hlive, hscope⟩ := (h.mem_iff g .group).1 (by simp)
  have hun : Unclosed lines g i := by
    rcases hlive.2 with hun | ⟨hs, -⟩
    · exact hun
    · rw [scopeAt?_of_sectAt hs] at hscope
      simp at hscope
  refine paired_iff.2 ⟨hc, hlive.1, hun, fun g' hlt hi hun' => ?_⟩
  -- a later unclosed group would stand before this one
  have hm := (h.mem_iff g' .group).2 ⟨⟨hi, .inl hun'⟩, scopeAt?_of_groupAt hun'.1⟩
  rcases List.mem_append.1 hm with hm | hm
  · exact hb _ hm rfl
  · have hlater := (List.pairwise_cons.1 (List.pairwise_append.1 h.latest_first).2.1).1
    rcases List.mem_cons.1 hm with hm | hm
    · obtain ⟨rfl, -⟩ := Prod.mk.inj hm
      exact Nat.lt_irrefl g' hlt
    · exact Nat.lt_asymm hlt (hlater _ hm)

/-- A closing bracket leaves the scopes that were open when its group was opened. -/
theorem Tracks.close {i : Nat} {stack : List (Nat × Scope)} {outer : List Scope}
    (h : Tracks lines (LiveAt lines · i) stack) (hc : ClosesAt lines i)
    (ho : closeGroup? (stack.map Prod.snd) = some outer) :
    ∃ stack', outer = stack'.map Prod.snd ∧ Tracks lines (LiveAt lines · (i + 1)) stack' := by
  obtain ⟨before, g, stack', rfl, rfl, hb⟩ := closeGroup?_map_snd ho
  have hp : Paired lines i g := h.paired hc hb
  have hsorted := List.pairwise_append.1 h.latest_first
  have hrest := List.pairwise_cons.1 hsorted.2.1
  refine ⟨stack', rfl, hrest.2, fun j scope => ?_⟩
  rw [liveAt_succ_of_paired hp, and_right_comm, ← h.mem_iff]
  constructor
  · intro hj
    exact ⟨by simp [hj], hrest.1 _ hj⟩
  · rintro ⟨hj, hlt⟩
    rcases List.mem_append.1 hj with hj | hj
    · exact absurd hlt (Nat.lt_asymm (hsorted.2.2 _ hj (g, .group) (by simp)))
    · rcases List.mem_cons.1 hj with hj | hj
      · obtain ⟨rfl, -⟩ := Prod.mk.inj hj
        exact absurd hlt (Nat.lt_irrefl j)
      · exact hj

theorem Tracks.length_eq {i : Nat} {stack : List (Nat × Scope)}
    (h : Tracks lines (OpenAt lines · i) stack) : stack.length = (openLines lines i).card := by
  have hnodup : (stack.map Prod.fst).Nodup := by
    refine List.Pairwise.map _ (fun x y hxy => ?_) h.latest_first
    exact Nat.ne_of_gt hxy
  rw [← List.length_map (f := Prod.fst), ← List.toFinset_card_of_nodup hnodup]
  congr 1
  ext j
  rw [mem_openLines, List.mem_toFinset, List.mem_map]
  constructor
  · rintro ⟨⟨j, scope⟩, hj, rfl⟩
    exact ((h.mem_iff j scope).1 hj).1
  · intro hj
    rcases hj.liveAt.groupAt_or_sectAt with hg | hs
    · exact ⟨_, (h.mem_iff j _).2 ⟨hj, scopeAt?_of_groupAt hg⟩, rfl⟩
    · exact ⟨_, (h.mem_iff j _).2 ⟨hj, scopeAt?_of_sectAt hs⟩, rfl⟩

theorem map_snd_dropWhile {i : Nat} {line : Line} (hl : lines[i]? = some line)
    (stack : List (Nat × Scope)) :
    (stack.map Prod.snd).dropWhile (Scope.endsAt line.indent) =
      (stack.dropWhile (Scope.endsAt (indentAt lines i) ∘ Prod.snd)).map Prod.snd := by
  have hind : line.indent = indentAt lines i := by simp [indentAt, hl]
  rw [hind, List.dropWhile_map]

/-- An item leaves as many scopes as lines are open at it. -/
theorem Tracks.length_dropWhile {i : Nat} {line : Line} {stack : List (Nat × Scope)}
    (h : Tracks lines (LiveAt lines · i) stack) (hl : lines[i]? = some line)
    (hi : ItemAt lines i) :
    ((stack.map Prod.snd).dropWhile (Scope.endsAt line.indent)).length =
      (openLines lines i).card := by
  rw [map_snd_dropWhile hl, List.length_map, (h.dropWhile hi).length_eq]

/-- The scopes after a line that is placed are those of the lines live then. -/
theorem Tracks.place {i : Nat} {line : Line} {stack : List (Nat × Scope)} {scopes : List Scope}
    {entry : Option Entry} (h : Tracks lines (LiveAt lines · i) stack)
    (hl : lines[i]? = some line) (hp : place (stack.map Prod.snd) line = .ok (scopes, entry)) :
    ∃ stack', scopes = stack'.map Prod.snd ∧ Tracks lines (LiveAt lines · (i + 1)) stack' := by
  rcases place_eq_ok hp with ⟨hf, hcg, -⟩ | ⟨item, outer, hf, rfl, -, rfl, -⟩
  · exact h.close ⟨line, hl, read_eq_close_iff.1 hf⟩ hcg
  · have hi : ItemAt lines i := itemAt_of_form hl hf
    refine ⟨_, ?_, (h.dropWhile hi).push hi⟩
    have hind : line.indent = indentAt lines i := by simp [indentAt, hl]
    rw [List.map_append, map_snd_dropWhile hl, scopeAt?_of_form hl hf, hind]
    cases scopeOf? (indentAt lines i) item <;> rfl

/-! ### The depths of the entries -/

/-- The items from line `i` on have the entries, each at a depth that is the number of lines open at
it. -/
structure EntriesFrom (lines : List Line) (i : Nat) (o : Outline) : Prop where
  length_eq : o.length + Nat.count (ItemAt lines) i = Nat.count (ItemAt lines) lines.length
  entry : ∀ k line item, i ≤ k → lines[k]? = some line → line.form = .item item →
    o[Nat.count (ItemAt lines) k - Nat.count (ItemAt lines) i]? =
      some ⟨(openLines lines k).card, item⟩

theorem entriesFrom_length (lines : List Line) : EntriesFrom lines lines.length [] := by
  refine ⟨by simp, fun k line item hk hl => ?_⟩
  rw [List.getElem?_eq_none hk] at hl
  contradiction

theorem EntriesFrom.closing {i : Nat} {o : Outline} (h : EntriesFrom lines (i + 1) o)
    (hc : ClosesAt lines i) : EntriesFrom lines i o := by
  have hcount : Nat.count (ItemAt lines) (i + 1) = Nat.count (ItemAt lines) i :=
    Nat.count_succ_eq_count_iff.2 hc.not_itemAt
  refine ⟨hcount ▸ h.length_eq, fun k line item hk hl hf => ?_⟩
  have hne : i ≠ k := by
    rintro rfl
    exact hc.not_itemAt (itemAt_of_form hl hf)
  have he := h.entry k line item (by omega) hl hf
  rwa [hcount] at he

theorem EntriesFrom.item {i : Nat} {line : Line} {item : Item} {o : Outline}
    (h : EntriesFrom lines (i + 1) o) (hl : lines[i]? = some line) (hf : line.form = .item item) :
    EntriesFrom lines i (⟨(openLines lines i).card, item⟩ :: o) := by
  have hcount : Nat.count (ItemAt lines) (i + 1) = Nat.count (ItemAt lines) i + 1 :=
    Nat.count_succ_eq_succ_count_iff.2 (itemAt_of_form hl hf)
  constructor
  · have hlen := h.length_eq
    rw [hcount] at hlen
    rw [List.length_cons]
    omega
  · intro k line' item' hk hl' hf'
    rcases Nat.eq_or_lt_of_le hk with rfl | hlt
    · obtain rfl : line = line' := Option.some.inj (hl.symm.trans hl')
      obtain rfl : item = item' := Form.item.inj (hf.symm.trans hf')
      rw [Nat.sub_self, List.getElem?_cons_zero]
    · have hmono : Nat.count (ItemAt lines) (i + 1) ≤ Nat.count (ItemAt lines) k :=
        Nat.count_monotone (ItemAt lines) hlt
      have he := h.entry k line' item' hlt hl' hf'
      rw [hcount] at he hmono
      have hidx : Nat.count (ItemAt lines) k - Nat.count (ItemAt lines) i =
          Nat.count (ItemAt lines) k - (Nat.count (ItemAt lines) i + 1) + 1 := by omega
      rw [hidx, List.getElem?_cons_succ, he]

/-- What the lines leave open and the entries they make agree with the lines, from line `i` on. -/
theorem entriesFrom_of_outline {i : Nat} {stack : List (Nat × Scope)} {o : Outline}
    (hle : i ≤ lines.length) (h : Tracks lines (LiveAt lines · i) stack)
    (ho : outline (stack.map Prod.snd) (lines.drop i) = .ok o) : EntriesFrom lines i o := by
  induction hn : lines.length - i generalizing i stack o with
  | zero =>
    obtain rfl : i = lines.length := by omega
    rw [List.drop_length] at ho
    obtain rfl := Except.ok.inj ho
    exact entriesFrom_length lines
  | succ n ih =>
    have hlt : i < lines.length := by omega
    have hl : lines[i]? = some lines[i] := List.getElem?_eq_getElem hlt
    rw [List.drop_eq_getElem_cons hlt] at ho
    obtain ⟨scopes', entry, more, hp, hm, rfl⟩ := outline_cons_eq_ok ho
    obtain ⟨stack', rfl, h'⟩ := h.place hl hp
    rcases place_eq_ok hp with ⟨hf, -, rfl⟩ | ⟨item, outer, hf, rfl, -, -, rfl⟩
    · exact (ih hlt h' hm (by omega)).closing ⟨_, hl, read_eq_close_iff.1 hf⟩
    · rw [h.length_dropWhile hl (itemAt_of_form hl hf)]
      exact (ih hlt h' hm (by omega)).item hl hf

/-! ### The nodes of the lines -/

/-- The address of the node of line `i`. The nodes below the root stand in the order of the items. -/
def addressOf? (lines : List Line) (t : Node) (i : Nat) : Option Address :=
  t.addresses[Nat.count (ItemAt lines) i + 1]?

/-- The tree has a node for each line but the closing brackets, and they nest as the lines do. -/
structure NestsAs (lines : List Line) (t : Node) : Prop where
  /-- There are no nodes but the root and those of the lines. -/
  length_addresses : t.addresses.length = Nat.count (ItemAt lines) lines.length + 1
  /-- The node of a line is what the line says. -/
  node : ∀ i line, lines[i]? = some line → line.text ≠ [']'] →
    ∃ a item, addressOf? lines t i = some a ∧ line.form = .item item ∧
      (t.at? a).map Node.item = some item
  root_above : ∀ i a, ItemAt lines i → addressOf? lines t i = some a → Above [] a
  /-- The lines of the nodes above a node are those that are open at its line. -/
  above_iff : ∀ i j a b, ItemAt lines i → ItemAt lines j → addressOf? lines t i = some a →
    addressOf? lines t j = some b → (Above b a ↔ OpenAt lines j i)
  /-- The parent of a node is the node of the latest open line. -/
  parent : ∀ i j a, ItemAt lines i → addressOf? lines t i = some a → OpenAt lines j i →
    (∀ l, OpenAt lines l i → l ≤ j) → addressOf? lines t j = some a.dropLast
  /-- If no line is open, the parent is the root. -/
  parent_root : ∀ i a, ItemAt lines i → addressOf? lines t i = some a →
    (∀ j, ¬ OpenAt lines j i) → a.dropLast = []

theorem tracks_nil (lines : List Line) : Tracks lines (LiveAt lines · 0) [] := by
  refine ⟨List.Pairwise.nil, fun j scope => ?_⟩
  simp only [List.not_mem_nil, false_iff, not_and]
  exact fun h => absurd h.1 (Nat.not_lt_zero j)

/-- Every node between the nodes of two lines is the node of a line between them. -/
theorem exists_itemAt_of_between {t : Node} {i j k : Nat} {c : Address}
    (hi : ItemAt lines i) (hlo : Nat.count (ItemAt lines) j + 1 < k)
    (hhi : k ≤ Nat.count (ItemAt lines) i + 1) (hc : t.addresses[k]? = some c) :
    ∃ l, j < l ∧ l ≤ i ∧ ItemAt lines l ∧ addressOf? lines t l = some c := by
  -- the line is the first one that has `k` nodes before its end
  have hex : ∃ l, k ≤ Nat.count (ItemAt lines) (l + 1) :=
    ⟨i, by rw [Nat.count_succ_eq_succ_count_iff.2 hi]; exact hhi⟩
  have hspec := Nat.find_spec hex
  have hfirst : Nat.count (ItemAt lines) (Nat.find hex) < k := by
    rcases hz : Nat.find hex with _ | l
    · rw [Nat.count_zero]
      omega
    · exact Nat.not_le.1 (Nat.find_min hex (by omega))
  have hitem : ItemAt lines (Nat.find hex) := by
    by_contra hno
    rw [Nat.count_succ_eq_count_iff.2 hno] at hspec
    omega
  have hcount : Nat.count (ItemAt lines) (Nat.find hex) + 1 = k := by
    rw [Nat.count_succ_eq_succ_count_iff.2 hitem] at hspec
    omega
  refine ⟨Nat.find hex, ?_, ?_, hitem, ?_⟩
  · exact Nat.lt_of_count_lt_count (p := ItemAt lines) (by omega)
  · exact Nat.find_min' hex (by rw [Nat.count_succ_eq_succ_count_iff.2 hi]; exact hhi)
  · rw [addressOf?, hcount, hc]

section
variable {ts : List Node} (ho : outline [] lines = .ok (outlineAll 0 ts))
include ho

theorem length_addresses_of_outline :
    (Node.root ts).addresses.length = Nat.count (ItemAt lines) lines.length + 1 := by
  have hlen := (entriesFrom_of_outline (Nat.zero_le _) (tracks_nil lines) ho).length_eq
  have hd := congrArg List.length (map_depth_outlineAll 0 0 ts)
  rw [List.length_map, List.length_map] at hd
  rw [addresses, List.length_cons, ← hd, ← hlen, Nat.count_zero, Nat.add_zero]

/-- The node of a line lies one level below as many nodes as lines are open, the root aside. -/
theorem exists_address_of_outline {i : Nat} {line : Line} {item : Item}
    (hl : lines[i]? = some line) (hf : line.form = .item item) :
    ∃ a, addressOf? lines (.root ts) i = some a ∧ a.length = (openLines lines i).card + 1 ∧
      ((Node.root ts).at? a).map Node.item = some item := by
  have he := (entriesFrom_of_outline (Nat.zero_le _) (tracks_nil lines) ho).entry i line item
    (Nat.zero_le i) hl hf
  rw [Nat.count_zero, Nat.sub_zero] at he
  have hd := congrArg (·[Nat.count (ItemAt lines) i]?) (map_depth_outlineAll 0 0 ts)
  have hn := congrArg (·[Nat.count (ItemAt lines) i]?) (map_at?_addressesFrom (.root ts) 0 ts rfl)
  rw [← map_item_outlineAll 0] at hn
  simp only [List.getElem?_map, he, Option.map_some] at hd hn
  obtain ⟨a, ha, hlen⟩ := Option.map_eq_some_iff.1 hd.symm
  rw [ha, Option.map_some, Option.some.injEq] at hn
  refine ⟨a, ?_, by omega, hn⟩
  rw [addressOf?, addresses, List.getElem?_cons_succ, ha]

theorem length_of_addressOf? {i : Nat} {a : Address} (hi : ItemAt lines i)
    (ha : addressOf? lines (.root ts) i = some a) : a.length = (openLines lines i).card + 1 := by
  obtain ⟨line, item, hl, hf⟩ := form_of_itemAt hi
  obtain ⟨a', ha', hlen, -⟩ := exists_address_of_outline ho hl hf
  obtain rfl := Option.some.inj (ha.symm.trans ha')
  exact hlen

theorem exists_addressOf? {i : Nat} (hi : ItemAt lines i) :
    ∃ a, addressOf? lines (.root ts) i = some a := by
  obtain ⟨line, item, hl, hf⟩ := form_of_itemAt hi
  obtain ⟨a, ha, -⟩ := exists_address_of_outline ho hl hf
  exact ⟨a, ha⟩

theorem above_iff_openAt {i j : Nat} {a b : Address} (hi : ItemAt lines i) (hj : ItemAt lines j)
    (ha : addressOf? lines (.root ts) i = some a) (hb : addressOf? lines (.root ts) j = some b) :
    Above b a ↔ OpenAt lines j i := by
  have hord := ordered_addresses (.root ts)
  rcases Nat.lt_or_ge j i with hlt | hge
  · have hcount : Nat.count (ItemAt lines) j + 1 < Nat.count (ItemAt lines) i + 1 :=
      Nat.succ_lt_succ (Nat.count_strict_mono hj hlt)
    have hla := length_of_addressOf? ho hi ha
    have hlb := length_of_addressOf? ho hj hb
    rw [openAt_iff_card hi hlt]
    constructor
    · rintro ⟨hp, -⟩ k hjk hki hk
      obtain ⟨c, hc⟩ := exists_addressOf? ho hk
      have hlc := length_of_addressOf? ho hk hc
      have hdeep := (prefix_iff_deeper hord hb ha hcount).1 hp _ c
        (Nat.succ_lt_succ (Nat.count_strict_mono hj hjk))
        (Nat.succ_le_succ (Nat.count_monotone _ hki)) hc
      omega
    · intro hall
      have hp : b <+: a := by
        refine (prefix_iff_deeper hord hb ha hcount).2 fun k c hlo hhi hc => ?_
        obtain ⟨l, hjl, hli, hl, hcl⟩ := exists_itemAt_of_between hi hlo hhi hc
        have hlc := length_of_addressOf? ho hl hcl
        have := hall l hjl hli hl
        omega
      refine ⟨hp, ?_⟩
      rintro rfl
      have := hall i hlt (Nat.le_refl i) hi
      omega
  · refine iff_of_false ?_ fun h => absurd h.1 (Nat.not_lt.2 hge)
    exact not_above_of_le hord ha hb (Nat.succ_le_succ (Nat.count_monotone _ hge))

end

/-- The tree of a source nests as its lines do. -/
theorem nestsAs_of_parse {source : Text} {t : Node} (h : parse source = .ok t) :
    NestsAs (linesOf source) t := by
  obtain ⟨ts, rfl, ho⟩ := parse_eq_ok_iff.1 h
  refine ⟨length_addresses_of_outline ho, ?_, ?_, ?_, ?_, ?_⟩
  · intro i line hl ht
    obtain ⟨line', item, hl', hf⟩ := form_of_itemAt ⟨line, hl, ht⟩
    obtain rfl : line = line' := Option.some.inj (hl.symm.trans hl')
    obtain ⟨a, ha, -, hn⟩ := exists_address_of_outline ho hl hf
    exact ⟨a, item, ha, hf, hn⟩
  · intro i a hi ha
    have hlen := length_of_addressOf? ho hi ha
    refine ⟨List.nil_prefix, ?_⟩
    rintro rfl
    simp at hlen
  · exact fun i j a b hi hj ha hb => above_iff_openAt ho hi hj ha hb
  · intro i j a hi ha hopen hlast
    obtain ⟨b, hb⟩ := exists_addressOf? ho hopen.itemAt
    have hla := length_of_addressOf? ho hi ha
    have hlb := length_of_addressOf? ho hopen.itemAt hb
    have hcard := card_openLines_of_latest hopen hlast
    have hp := ((above_iff_openAt ho hi hopen.itemAt ha hb).2 hopen).1
    rw [hb, List.prefix_iff_eq_take.1 hp, List.dropLast_eq_take]
    congr 2
    omega
  · intro i a hi ha hno
    have hlen := length_of_addressOf? ho hi ha
    have hempty : openLines (linesOf source) i = ∅ :=
      Finset.eq_empty_of_forall_notMem fun j hj => hno j (mem_openLines.1 hj)
    rw [hempty, Finset.card_empty] at hlen
    rw [List.dropLast_eq_take, hlen]
    rfl

/-- Two sections at the margin in a group that is indented: the second closes the first, not the
group. -/
theorem nestsAs_of_parse_sample :
    parse "=wrap\n  [\n=left 1/2\n  l\n=right 1/2\n  r\n  ]".toList =
        .ok (.root [.sect "wrap".toList none [.group [
          .sect "left".toList (some ⟨1, 2⟩) [.row "l".toList],
          .sect "right".toList (some ⟨1, 2⟩) [.row "r".toList]]]]) ∧
      OpenAt (linesOf "=wrap\n  [\n=left 1/2\n  l\n=right 1/2\n  r\n  ]".toList) 1 5 ∧
      ¬ OpenAt (linesOf "=wrap\n  [\n=left 1/2\n  l\n=right 1/2\n  r\n  ]".toList) 2 5 := by
  have h : parse "=wrap\n  [\n=left 1/2\n  l\n=right 1/2\n  r\n  ]".toList =
      .ok (.root [.sect "wrap".toList none [.group [
        .sect "left".toList (some ⟨1, 2⟩) [.row "l".toList],
        .sect "right".toList (some ⟨1, 2⟩) [.row "r".toList]]]]) := by rfl
  have hn := nestsAs_of_parse h
  refine ⟨h, ?_, ?_⟩
  · exact (hn.above_iff 5 1 [0, 0, 1, 0] [0, 0] (by decide) (by decide) (by decide) (by decide)).1
      ⟨⟨[1, 0], rfl⟩, by decide⟩
  · intro hopen
    obtain ⟨⟨rest, hr⟩, -⟩ := (hn.above_iff 5 2 [0, 0, 1, 0] [0, 0, 0] (by decide) (by decide)
      (by decide) (by decide)).2 hopen
    simp at hr

end Wireframe.Source
