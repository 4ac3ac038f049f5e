import Mathlib.Logic.Relation
import Wireframe.Proofs.Node.Replace
import Wireframe.Proofs.Source.Builder
import Wireframe.Proofs.Source.Fault

/-! Building drafts and taking their tree out of them is parsing (`build_eq_parse`). The open drafts
have the scopes of the parser (`scopes`), and what the drafts hold, read from the root
to the innermost open draft, is the outline so far (`entries`). Closing a draft changes
neither: its tree only goes to the end of the one around it (`Held.entriesOf_attach`).
So a line does to scopes and entries what it does for the parser (`Sound.place_of_step`), and
each draft but the root makes an entry, which counts the nodes of the finished tree. -/

namespace Wireframe.Source.Builder

open Drafts Node Outline

variable {b b' : Builder} {top : OpenDraft} {item : Item} {indent : Nat} {ds ds' : Drafts}
variable {line : Line} {lines : List Line}

/-! ### The scopes of the open drafts -/

/-- The scope of an open draft. The root has none. -/
def scopeOn (ds : Drafts) (o : OpenDraft) : Option Scope :=
  (ds.item? o.id).bind (scopeOf? o.indent)

def scopes (b : Builder) : List Scope := b.stack.filterMap (scopeOn b.drafts)

theorem Sound.scopes_of_pop?_none (h : Sound b) (hp : b.pop? = none) : b.scopes = [] := by
  rw [scopes, h.stack_of_pop?_none hp]
  simp [scopeOn, h.item?_zero, scopeOf?]

/-- The innermost open draft, if it can be closed, is a group or a section. -/
theorem Sound.isGroup_or_isSect (h : Sound b) (hp : b.pop? = some (top, b')) :
    b.drafts.item? top.id = some .group ∨ b.drafts.IsSect top.id := by
  obtain ⟨parent, stack, hs, -⟩ := pop?_eq_some_iff.1 hp
  have htop : top ∈ b.stack := by simp [hs]
  have hlt := (List.isChain_cons_cons.1 (hs ▸ h.ascending)).1.1
  obtain ⟨d, hd⟩ := exists_getElem?_of_lt (h.id_lt htop)
  have hitem := item?_of_getElem? hd
  cases hi : d.item with
  | root =>
    have := (h.shaped.root_iff top.id).1 (hi ▸ hitem)
    omega
  | sect name ratio => exact .inr ⟨name, ratio, hi ▸ hitem⟩
  | group => exact .inl (hi ▸ hitem)
  | row text => exact absurd (hi ▸ hitem) (h.not_row top htop text)

theorem Sound.scopes_of_pop (h : Sound b) (hp : b.pop? = some (top, b')) :
    b.scopes = (if b.isGroup top.id then .group else .sect top.indent) :: b'.scopes := by
  have hkind := h.isGroup_or_isSect hp
  obtain ⟨parent, stack, hs, rfl⟩ := pop?_eq_some_iff.1 hp
  have hrest : (parent :: stack).filterMap (scopeOn (b.drafts.attach parent.id top.id)) =
      (parent :: stack).filterMap (scopeOn b.drafts) :=
    List.filterMap_congr fun o _ => by rw [scopeOn, item?_attach, scopeOn]
  rw [scopes, scopes, hs, hrest]
  rcases hkind with hgroup | ⟨name, ratio, hsect⟩
  · have htop : scopeOn b.drafts top = some .group := by simp [scopeOn, hgroup, scopeOf?]
    rw [List.filterMap_cons_some htop]
    simp [isGroup, hgroup]
  · have htop : scopeOn b.drafts top = some (.sect top.indent) := by
      simp [scopeOn, hsect, scopeOf?]
    rw [List.filterMap_cons_some htop]
    simp [isGroup, hsect]

/-- All open drafts but the root have a scope. -/
theorem Sound.length_scopes (h : Sound b) : b.scopes.length + 1 = b.stack.length := by
  induction b using closeAll.induct with
  | case1 b hp =>
    rw [h.scopes_of_pop?_none hp, h.stack_of_pop?_none hp]
    rfl
  | case2 b top b' hp ih =>
    rw [h.scopes_of_pop hp, List.length_cons, ih (h.pop hp)]
    exact length_of_pop? hp

theorem Sound.scopes_collapse (h : Sound b) (indent : Nat) :
    (b.collapse indent).scopes = b.scopes.dropWhile (Scope.endsAt indent) := by
  fun_induction collapse b indent with
  | case1 b hp =>
    rw [h.scopes_of_pop?_none hp]
    rfl
  | case2 b top b' hp hstop =>
    rw [h.scopes_of_pop hp, List.dropWhile_cons_of_neg]
    split_ifs with hgroup
    · simp [Scope.endsAt]
    · simpa [Scope.endsAt] using hstop.resolve_left hgroup
  | case3 b top b' hp hgo ih =>
    obtain ⟨hgroup, hle⟩ := not_or.1 hgo
    rw [ih (h.pop hp), h.scopes_of_pop hp, if_neg hgroup, List.dropWhile_cons_of_pos]
    simpa [Scope.endsAt] using hle

theorem isGroup_of_pop? (hp : b.pop? = some (top, b')) (id : Nat) :
    b'.isGroup id = b.isGroup id := by
  obtain ⟨parent, stack, -, rfl⟩ := pop?_eq_some_iff.1 hp
  rw [isGroup, item?_attach, isGroup]

theorem Sound.scopes_closeGroup? (h : Sound b) :
    b.closeGroup?.map scopes = Source.closeGroup? b.scopes := by
  fun_induction closeGroup? b with
  | case1 b hp =>
    rw [h.scopes_of_pop?_none hp]
    rfl
  | case2 b top b' hp hgroup =>
    rw [isGroup_of_pop? hp] at hgroup
    rw [h.scopes_of_pop hp, if_pos hgroup]
    rfl
  | case3 b top b' hp hgroup ih =>
    rw [isGroup_of_pop? hp] at hgroup
    rw [ih (h.pop hp), h.scopes_of_pop hp, if_neg hgroup]
    rfl

theorem Sound.scopeOn_add (h : Sound b) (item : Item) :
    b.stack.filterMap (scopeOn (b.drafts.add item)) = b.scopes :=
  List.filterMap_congr fun o ho => by rw [scopeOn, h.item?_add_of_mem ho, scopeOn]

theorem Sound.scopes_opened (h : Sound b) :
    (b.opened item indent).scopes = (scopeOf? indent item).toList ++ b.scopes := by
  have hnew : scopeOn (b.drafts.add item) ⟨b.drafts.length, indent⟩ = scopeOf? indent item := by
    simp [scopeOn, item?_add]
  rw [scopes, Builder.opened, List.filterMap_cons, hnew, h.scopeOn_add item]
  cases scopeOf? indent item <;> rfl

theorem Sound.scopes_append (h : Sound b) : (b.append item).scopes = b.scopes := by
  rw [← h.scopeOn_add item]
  exact List.filterMap_congr fun o _ => by rw [scopeOn, Builder.append, item?_attach, scopeOn]

/-! ### The entries of the drafts -/

/-- The outline of what a draft holds. -/
def held (ds : Drafts) (depth id : Nat) : Outline :=
  outlineAll depth ((ds.childrenOf id).map ds.tree)

/-- The outline of open drafts, with all that they hold. The outermost has no entry of its own. -/
def entriesOf (ds : Drafts) : List OpenDraft → Outline
  | [] => []
  | [o] => held ds 0 o.id
  | o :: below :: stack =>
    entriesOf ds (below :: stack) ++ (ds.item? o.id).toList.map (⟨stack.length, ·⟩) ++
      held ds (stack.length + 1) o.id

def entries (b : Builder) : Outline := entriesOf b.drafts b.stack

theorem entriesOf_congr {stack : List OpenDraft}
    (hitem : ∀ o ∈ stack, ds'.item? o.id = ds.item? o.id)
    (hheld : ∀ o ∈ stack, ∀ depth, held ds' depth o.id = held ds depth o.id) :
    entriesOf ds' stack = entriesOf ds stack := by
  fun_induction entriesOf ds stack with
  | case1 => rfl
  | case2 o => exact hheld o (by simp) 0
  | case3 o below stack ih =>
    rw [entriesOf, ih (fun p hp => hitem p (List.mem_cons_of_mem o hp))
      (fun p hp => hheld p (List.mem_cons_of_mem o hp)), hitem o List.mem_cons_self,
      hheld o List.mem_cons_self]

theorem held_congr {id depth : Nat} (hchildren : ds'.childrenOf id = ds.childrenOf id)
    (htree : ∀ c ∈ ds.childrenOf id, ds'.tree c = ds.tree c) :
    held ds' depth id = held ds depth id := by
  rw [held, held, hchildren, List.map_congr_left htree]

/-- Giving a draft to an open one leaves the trees of all others. -/
theorem Held.tree_attach (h : Held b) {parent : OpenDraft} (hparent : parent ∈ b.stack)
    {child c : Nat} (hc : c ≠ parent.id) :
    (b.drafts.attach parent.id child).tree c = b.drafts.tree c :=
  fold_congr (fun _ => getElem?_attach_of_ne) (h.notMem_links hparent) hc

/-- So does adding a draft. -/
theorem Held.tree_add (h : Held b) {c : Nat} (hc : c ≠ b.drafts.length) :
    (b.drafts.add item).tree c = b.drafts.tree c :=
  fold_congr (fun _ => getElem?_add_of_ne) h.length_notMem_links hc

theorem Held.ne_of_mem_childrenOf (h : Held b) {o : OpenDraft} (ho : o ∈ b.stack) {id c : Nat}
    (hc : c ∈ b.drafts.childrenOf id) : c ≠ o.id := by
  rintro rfl
  exact h.notMem_links ho (mem_links_iff.2 ⟨id, hc⟩)

/-- The draft that is closed becomes the last tree in the one around it. -/
theorem Held.entriesOf_attach (h : Held b) {parent : OpenDraft} {stack : List OpenDraft}
    (hs : b.stack = top :: parent :: stack) :
    entriesOf (b.drafts.attach parent.id top.id) (parent :: stack) =
      entriesOf b.drafts (parent :: stack) ++ (b.drafts.tree top.id).outline stack.length := by
  have hparent : parent ∈ b.stack := by simp [hs]
  have hnodup : (b.stack.map (·.id)).Nodup := (List.nodup_append'.1 h.nodup).1
  simp only [hs, List.map_cons, List.nodup_cons, List.mem_cons, not_or] at hnodup
  obtain ⟨⟨htop, -⟩, hrest, -⟩ := hnodup
  have htree : ∀ id, ∀ c ∈ b.drafts.childrenOf id,
      (b.drafts.attach parent.id top.id).tree c = b.drafts.tree c :=
    fun id c hc => h.tree_attach hparent (h.ne_of_mem_childrenOf hparent hc)
  have hheld : ∀ depth, held (b.drafts.attach parent.id top.id) depth parent.id =
      held b.drafts depth parent.id ++ (b.drafts.tree top.id).outline depth := by
    intro depth
    rw [held, childrenOf_attach (h.id_lt hparent), List.map_append, List.map_singleton,
      List.map_congr_left (htree parent.id), h.tree_attach hparent htop, outlineAll_append, held]
    simp [outlineAll]
  have hbelow : entriesOf (b.drafts.attach parent.id top.id) stack = entriesOf b.drafts stack := by
    refine entriesOf_congr (fun o _ => item?_attach) fun o ho depth => ?_
    have hne : o.id ≠ parent.id := fun heq => hrest (heq ▸ List.mem_map_of_mem ho)
    exact held_congr (childrenOf_attach_of_ne hne) (htree o.id)
  cases stack with
  | nil => exact hheld 0
  | cons below stack =>
    rw [entriesOf, entriesOf, hbelow, item?_attach, hheld, List.append_assoc, List.append_assoc,
      List.append_assoc]
    rfl

theorem Held.entries_of_pop (h : Held b) (hp : b.pop? = some (top, b'))
    (hrow : ∀ text, b.drafts.item? top.id = some (.row text) → b.drafts.childrenOf top.id = []) :
    b'.entries = b.entries := by
  obtain ⟨parent, stack, hs, rfl⟩ := pop?_eq_some_iff.1 hp
  obtain ⟨d, hd⟩ := exists_getElem?_of_lt (h.id_lt (o := top) (by simp [hs]))
  have hitem := item?_of_getElem? hd
  have hleaf : ∀ text, d.item = .row text →
      (b.drafts.childrenOf top.id).map b.drafts.tree = [] := by
    intro text htext
    rw [hrow text (htext ▸ hitem)]
    rfl
  rw [entries, entries, hs, h.entriesOf_attach hs, entriesOf, h.later.tree_eq hitem,
    outline_toNode _ _ _ hleaf, hitem, List.append_assoc]
  rfl

theorem Sound.entries_of_closes (h : Sound b) (hc : Closes b b') : b'.entries = b.entries := by
  induction hc with
  | refl b => rfl
  | pop first _ ih =>
    rw [ih (h.pop first)]
    exact h.toHeld.entries_of_pop first (h.shaped.childless _)

theorem Held.entries_opened (h : Held b) (item : Item) (indent : Nat) :
    (b.opened item indent).entries = b.entries ++ [⟨b.stack.length - 1, item⟩] := by
  obtain ⟨top, stack, hs⟩ := List.exists_cons_of_ne_nil h.stack_ne_nil
  have hbelow : entriesOf (b.drafts.add item) (top :: stack) =
      entriesOf b.drafts (top :: stack) := by
    rw [← hs]
    refine entriesOf_congr (fun o ho => ?_) fun o ho _ => held_congr childrenOf_add fun c hc => ?_
    · exact item?_add_of_ne (Nat.ne_of_lt (h.id_lt ho))
    · exact h.tree_add (Nat.ne_of_lt (h.later o.id c hc).2)
  have hnone : held (b.drafts.add item) (stack.length + 1) b.drafts.length = [] := by
    rw [held, childrenOf_add, childrenOf_length]
    rfl
  rw [entries, entries, Builder.opened, hs, entriesOf, hbelow, hnone, item?_add, List.append_nil]
  rfl

theorem Held.entries_append (h : Held b) :
    (b.append item).entries = b.entries ++ [⟨b.stack.length - 1, item⟩] := by
  rw [← h.entries_opened item 0]
  refine (h.opened item 0).entries_of_pop (pop?_opened h.stack_ne_nil item) fun _ _ => ?_
  rw [Builder.opened, childrenOf_add, childrenOf_length]

/-! ### Building and parsing -/

/-- A line makes the scopes and the entry that it makes for a parser. -/
theorem Sound.place_of_step (h : Sound b) (hs : b.step line = .ok b') :
    ∃ entry, place b.scopes line = .ok (b'.scopes, entry) ∧
      b'.entries = b.entries ++ entry.toList ∧
      b'.drafts.length = b.drafts.length + entry.toList.length := by
  have houter := h.closes (closes_collapse b line.indent)
  have hscopes := h.scopes_collapse line.indent
  have hentries := h.entries_of_closes (closes_collapse b line.indent)
  have hdrafts := (closes_collapse b line.indent).length_drafts
  have hlength : (b.collapse line.indent).stack.length - 1 =
      (b.scopes.dropWhile (Scope.endsAt line.indent)).length := by
    rw [← houter.length_scopes, hscopes, Nat.add_sub_cancel]
  rcases h.step_eq_ok hs with ⟨hf, hc⟩ | ⟨text, hf, rfl⟩ | ⟨item, hf, hroot, hrow, hlen, rfl⟩
  · have hclose := h.scopes_closeGroup?
    rw [hc] at hclose
    refine ⟨none, ?_, ?_, (closes_of_closeGroup? hc).length_drafts⟩
    · unfold place
      rw [hf, ← hclose]
      rfl
    · rw [h.entries_of_closes (closes_of_closeGroup? hc)]
      exact (List.append_nil _).symm
  · refine ⟨some ⟨(b.scopes.dropWhile (Scope.endsAt line.indent)).length, .row text⟩, ?_, ?_, ?_⟩
    · rw [houter.scopes_append, hscopes]
      exact place_of_item hf fun hno => absurd rfl hno
    · rw [houter.entries_append, hentries, hlength]
      rfl
    · rw [Builder.append, length_attach, length_add, hdrafts]
      rfl
  · refine ⟨some ⟨(b.scopes.dropWhile (Scope.endsAt line.indent)).length, item⟩, ?_, ?_, ?_⟩
    · rw [houter.scopes_opened, hscopes]
      refine place_of_item hf fun _ => ?_
      have := houter.length_scopes
      rw [hscopes] at this
      omega
    · rw [houter.entries_opened, hentries, hlength]
      rfl
    · rw [Builder.opened, length_add, hdrafts]
      rfl

/-- A line that is refused is refused by a parser, for the same reason. -/
theorem Sound.place_of_step_error (h : Sound b) {e : ParseError} (hs : b.step line = .error e) :
    place b.scopes line = .error e := by
  rw [place_eq_error_iff]
  rcases h.step_eq_error hs with ⟨hf, hc, he⟩ | ⟨item, hf, hroot, hrow, hlen, he⟩
  · have hclose := h.scopes_closeGroup?
    rw [hc] at hclose
    exact .inl ⟨hf, hclose.symm, he⟩
  · have hscope : scopeOf? line.indent item ≠ none := by
      cases item with
      | root => exact absurd rfl hroot
      | row text => exact absurd rfl (hrow text)
      | _ => exact Option.some_ne_none _
    have hlength := (h.closes (closes_collapse b line.indent)).length_scopes
    rw [h.scopes_collapse] at hlength
    exact .inr ⟨item, hf, hscope, by omega, he⟩

theorem Sound.outline_of_run (h : Sound b) (lines : List Line) :
    (outline b.scopes lines).map (b.entries ++ ·) = (b.run lines).map entries := by
  induction lines generalizing b with
  | nil => exact congrArg Except.ok (List.append_nil _)
  | cons line lines ih =>
    rw [Builder.run]
    cases hs : b.step line with
    | error e =>
      rw [outline, h.place_of_step_error hs]
      rfl
    | ok b' =>
      obtain ⟨entry, hplace, hentries, -⟩ := h.place_of_step hs
      change _ = (b'.run lines).map entries
      rw [← ih (h.step hs), outline_cons_of_place hplace, hentries]
      cases outline b'.scopes lines <;> simp [Except.map]

/-- The tree of the root, once all is closed, has the entries. -/
theorem Sound.exists_tree_closeAll (h : Sound b) :
    ∃ ts, b.closeAll.drafts.tree 0 = .root ts ∧ b.entries = outlineAll 0 ts := by
  have hclosed := h.closes (closes_closeAll b)
  refine ⟨_, hclosed.later.tree_eq hclosed.item?_zero, ?_⟩
  rw [← h.entries_of_closes (closes_closeAll b), entries,
    hclosed.stack_of_length_le (length_closeAll_le b)]
  rfl

theorem Sound.finish_eq (h : Sound b) : b.finish = some (.root b.entries.forest) := by
  have hclosed := h.closes (closes_closeAll b)
  obtain ⟨last, hbuild, -⟩ := hclosed.treelike.exists_build? hclosed.length_pos
  obtain ⟨ts, htree, hentries⟩ := h.exists_tree_closeAll
  rw [finish, hbuild, htree, hentries, forest_outlineAll]
  rfl

/-- Building drafts and taking their tree out of them is parsing. -/
theorem build_eq_parse (source : Text) : build source = (parse source).map some := by
  have hrun := Sound.start.outline_of_run (linesOf source)
  have hscopes : start.scopes = [] := rfl
  have hentries : start.entries = [] := rfl
  rw [hscopes, hentries] at hrun
  cases ho : outline [] (linesOf source) with
  | error e =>
    rw [ho] at hrun
    rw [build, map_eq_error_iff.1 hrun.symm, parse, ho]
    rfl
  | ok o =>
    rw [ho] at hrun
    obtain ⟨b, hr, he⟩ := map_eq_ok_iff.1 hrun.symm
    rw [build, hr, parse, ho]
    change Except.ok b.finish = _
    rw [(Sound.start.run hr).finish_eq, he]
    rfl

/-! ### Counting drafts -/

/-- Each draft but the first makes an entry. -/
theorem Sound.length_entries_of_run (h : Sound b) (hlen : b.drafts.length = b.entries.length + 1)
    (hr : b.run lines = .ok b') : b'.drafts.length = b'.entries.length + 1 := by
  induction lines generalizing b with
  | nil =>
    obtain rfl := Except.ok.inj hr
    exact hlen
  | cons line lines ih =>
    obtain ⟨mid, hs, hr⟩ := bind_eq_ok_iff.1 hr
    obtain ⟨entry, -, hentries, hdrafts⟩ := h.place_of_step hs
    refine ih (h.step hs) ?_ hr
    rw [hdrafts, hentries, hlen, List.length_append]
    omega

theorem Sound.count_tree_closeAll (h : Sound b) :
    (b.closeAll.drafts.tree 0).count = b.entries.length + 1 := by
  obtain ⟨ts, htree, hentries⟩ := h.exists_tree_closeAll
  rw [htree, hentries, count, ← length_itemsAll, ← map_item_outlineAll 0, List.length_map,
    Nat.add_comm]

/-- In drafts that make trees, the loop gives for each draft the tree of the recursion, which is its
item with the trees of its children, and takes just the drafts below it, each once. After a source
was read, it gives as many nodes as there are drafts. -/
theorem build?_eq_recursion :
    (∀ ds : Drafts, ds.Treelike → ∀ id < ds.length, ∃ item last,
      ds.item? id = some item ∧ ds.tree id = item.toNode ((ds.childrenOf id).map ds.tree) ∧
        ds.build? id = some (ds.tree id, last) ∧
        last.taken.Nodup ∧ (∀ k, k ∈ last.taken ↔ ds.Below id k) ∧
        ∀ k, last.drafts[k]? = if k ∈ last.taken then some Draft.taken else ds[k]?) ∧
      ∀ lines b, start.run lines = .ok b → ∃ t last,
        b.closeAll.drafts.build? 0 = some (t, last) ∧ t.count = b.closeAll.drafts.length := by
  constructor
  · intro ds h id hid
    obtain ⟨d, hd⟩ := exists_getElem?_of_lt hid
    have hitem := item?_of_getElem? hd
    obtain ⟨last, hbuild, htaken, hleft⟩ := h.exists_build? hid
    refine ⟨d.item, last, hitem, h.later.tree_eq hitem, hbuild, ?_, fun k => ?_, fun k => ?_⟩
    · exact htaken ▸ h.nodup_subtree hid
    · exact htaken ▸ h.later.mem_subtree_iff_below hid
    · exact htaken ▸ hleft k
  · intro lines b hr
    have h : Sound b := Sound.start.run hr
    have hclosed := h.closes (closes_closeAll b)
    obtain ⟨last, hbuild, -⟩ := hclosed.treelike.exists_build? hclosed.length_pos
    refine ⟨_, last, hbuild, ?_⟩
    rw [h.count_tree_closeAll, (closes_closeAll b).length_drafts]
    exact (Sound.start.length_entries_of_run rfl hr).symm

theorem build?_eq_recursion_sample :
    sampleBuilder.drafts.Treelike ∧
      (∃ last, sampleBuilder.drafts.build? 2 = some (.group [.sect "b".toList none
        [.sect "c".toList none [.row "x".toList]]], last) ∧ last.taken.Nodup) ∧
      ∃ t last, sampleBuilder.closeAll.drafts.build? 0 = some (t, last) ∧ t.count = 7 := by
  have htree : sampleBuilder.drafts.tree 2 = .group [.sect "b".toList none
      [.sect "c".toList none [.row "x".toList]]] := by with_unfolding_all rfl
  have h := (Sound.start.run run_sampleLines).treelike
  obtain ⟨item, last, -, -, hbuild, hnodup, -⟩ := build?_eq_recursion.1 _ h 2 (by decide)
  obtain ⟨t, emptied, hroot, hcount⟩ := build?_eq_recursion.2 _ _ run_sampleLines
  refine ⟨h, ⟨last, htree ▸ hbuild, hnodup⟩, t, emptied, hroot, hcount.trans ?_⟩
  decide +kernel

end Wireframe.Source.Builder
