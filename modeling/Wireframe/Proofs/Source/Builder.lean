import Mathlib.Data.List.Chain
import Mathlib.Data.List.Range
import Mathlib.Tactic.SplitIfs
import Wireframe.Proofs.Result
import Wireframe.Proofs.Source.Draft
import Wireframe.Proofs.Source.Parse
import Wireframe.Source.Builder

/-! What holds of a builder between its operations. Every draft is open or held by one that
comes before it (`Held`); the open drafts are no rows, and a section right in a section
is indented further (`Orderly`). All ways of closing drafts give the innermost open draft
to the one around it, some number of times (`Closes`), so one lemma on that step (`Sound.pop`)
serves them all. With the two ways in which a draft comes in (`Sound.opened`, `Sound.append`)
each line keeps the builder sound (`Sound.step`), hence any lines do (`wellFormed_of_run`). -/

namespace Wireframe.Source.Builder

open Drafts

variable {b b' : Builder} {top : OpenDraft} {item : Item} {indent : Nat}

/-! ### Closing step by step -/

theorem pop?_eq_some_iff :
    b.pop? = some (top, b') ↔ ∃ parent stack, b.stack = top :: parent :: stack ∧
      b' = ⟨b.drafts.attach parent.id top.id, parent :: stack⟩ := by
  unfold pop?
  split
  · next first parent stack hs =>
    simp only [Option.some.injEq, Prod.mk.injEq, hs, List.cons.injEq]
    constructor
    · rintro ⟨rfl, rfl⟩
      exact ⟨parent, stack, ⟨rfl, rfl, rfl⟩, rfl⟩
    · rintro ⟨_, _, ⟨rfl, rfl, rfl⟩, rfl⟩
      exact ⟨rfl, rfl⟩
  · next hs =>
    refine iff_of_false (by simp) ?_
    rintro ⟨parent, stack, heq, -⟩
    exact hs _ _ _ heq

theorem length_le_one_of_pop? (h : b.pop? = none) : b.stack.length ≤ 1 := by
  cases hs : b.stack with
  | nil => simp
  | cons top stack =>
    cases stack with
    | nil => simp
    | cons parent stack => simp [pop?, hs] at h

/-- Some of the open drafts are closed, the innermost first. -/
inductive Closes : Builder → Builder → Prop
  | refl (b : Builder) : Closes b b
  | pop {b mid b' : Builder} {top : OpenDraft} (first : b.pop? = some (top, mid))
      (rest : Closes mid b') : Closes b b'

theorem closes_collapse (b : Builder) (indent : Nat) : Closes b (b.collapse indent) := by
  fun_induction collapse b indent with
  | case1 b hp => exact .refl b
  | case2 b top b' hp hstop => exact .refl b
  | case3 b top b' hp hstop ih => exact .pop hp ih

theorem closes_of_closeGroup? (h : b.closeGroup? = some b') : Closes b b' := by
  fun_induction closeGroup? b with
  | case1 b hp => contradiction
  | case2 b top mid hp hgroup =>
    obtain rfl := Option.some.inj h
    exact .pop hp (.refl _)
  | case3 b top mid hp hgroup ih => exact .pop hp (ih h)

theorem closes_closeAll (b : Builder) : Closes b b.closeAll := by
  fun_induction closeAll b with
  | case1 b hp => exact .refl b
  | case2 b top b' hp ih => exact .pop hp ih

theorem Closes.length_drafts (h : Closes b b') : b'.drafts.length = b.drafts.length := by
  induction h with
  | refl b => rfl
  | pop first _ ih =>
    obtain ⟨parent, stack, -, rfl⟩ := pop?_eq_some_iff.1 first
    rw [ih, length_attach]

theorem length_closeAll_le (b : Builder) : b.closeAll.stack.length ≤ 1 := by
  fun_induction closeAll b with
  | case1 b hp => exact length_le_one_of_pop? hp
  | case2 b top b' hp ih => exact ih

/-! ### Who holds which draft -/

/-- Each draft is open or held by one other, which comes before it. -/
structure Held (b : Builder) : Prop where
  bottom : b.stack.getLast? = some ⟨0, 0⟩
  /-- An open draft comes after the one it lies in and after the children of that one. -/
  ascending : b.stack.IsChain fun top below =>
    below.id < top.id ∧ ∀ c ∈ b.drafts.childrenOf below.id, c < top.id
  /-- The open drafts and the children are all drafts, each once. -/
  partition : (b.stack.map (·.id) ++ b.drafts.links).Perm (List.range b.drafts.length)
  increasing : ∀ id, (b.drafts.childrenOf id).Pairwise (· < ·)
  later : b.drafts.Later

namespace Held

theorem start : Held start := by
  refine ⟨rfl, List.isChain_singleton _, List.Perm.refl _, fun id => ?_, fun id c hc => ?_⟩
  · cases id <;> exact List.Pairwise.nil
  · cases id <;> simp [Builder.start, Drafts.start, childrenOf] at hc

theorem stack_ne_nil (h : Held b) : b.stack ≠ [] := by
  intro hnil
  have := h.bottom
  rw [hnil] at this
  contradiction

theorem stack_of_length_le (h : Held b) (hlen : b.stack.length ≤ 1) : b.stack = [⟨0, 0⟩] := by
  obtain ⟨top, stack, hs⟩ := List.exists_cons_of_ne_nil h.stack_ne_nil
  have hbottom := h.bottom
  rw [hs] at hlen hbottom ⊢
  obtain rfl := List.eq_nil_of_length_eq_zero (Nat.le_zero.1 (Nat.le_of_succ_le_succ hlen))
  exact congrArg (fun o => [o]) (Option.some.inj hbottom)

theorem nodup (h : Held b) : (b.stack.map (·.id) ++ b.drafts.links).Nodup :=
  h.partition.nodup_iff.2 List.nodup_range

theorem nodup_links (h : Held b) : b.drafts.links.Nodup := (List.nodup_append'.1 h.nodup).2.1

theorem id_lt (h : Held b) {o : OpenDraft} (ho : o ∈ b.stack) : o.id < b.drafts.length := by
  have := h.partition.mem_iff.1 (List.mem_append_left _ (List.mem_map_of_mem ho))
  exact List.mem_range.1 this

theorem length_pos (h : Held b) : 0 < b.drafts.length := h.id_lt (List.mem_of_getLast? h.bottom)

theorem notMem_links (h : Held b) {o : OpenDraft} (ho : o ∈ b.stack) : o.id ∉ b.drafts.links :=
  fun hmem => (List.nodup_append'.1 h.nodup).2.2 (List.mem_map_of_mem ho) hmem

theorem length_notMem_links (h : Held b) : b.drafts.length ∉ b.drafts.links := fun hmem =>
  absurd (List.mem_range.1 (h.partition.mem_iff.1 (List.mem_append_right _ hmem)))
    (Nat.lt_irrefl _)

theorem treelike (h : Held b) : b.drafts.Treelike :=
  ⟨h.later, fun c _ => List.nodup_iff_count_le_one.1 h.nodup_links c⟩

/-- The draft closed last is held by the one around it, after its other children. -/
theorem pop (h : Held b) (hp : b.pop? = some (top, b')) : Held b' := by
  obtain ⟨parent, stack, hs, rfl⟩ := pop?_eq_some_iff.1 hp
  have hlt : parent.id < b.drafts.length := h.id_lt (by simp [hs])
  have htop : top.id < b.drafts.length := h.id_lt (by simp [hs])
  obtain ⟨⟨hid, hchildren⟩, hrest⟩ := List.isChain_cons_cons.1 (hs ▸ h.ascending)
  have hnodup : ((top :: parent :: stack).map (·.id)).Nodup :=
    hs ▸ (List.nodup_append'.1 h.nodup).1
  refine ⟨?_, ?_, ?_, fun id => ?_, h.later.attach hid htop⟩
  · rw [← h.bottom, hs]
    rfl
  · refine hrest.imp_of_mem_tail_imp fun upper below _ hbelow hr => ?_
    have hne : below.id ≠ parent.id := by
      intro heq
      have hmem : below.id ∈ stack.map (·.id) := List.mem_map_of_mem hbelow
      rw [heq] at hmem
      exact (List.nodup_cons.1 hnodup.of_cons).1 hmem
    rwa [childrenOf_attach_of_ne hne]
  · rw [length_attach]
    refine List.Perm.trans ?_ h.partition
    rw [hs, List.map_cons]
    exact ((perm_links_attach hlt).append_left _).trans List.perm_middle
  · by_cases heq : id = parent.id
    · rw [heq, childrenOf_attach hlt]
      refine List.pairwise_append.2 ⟨h.increasing _, List.pairwise_singleton _ _, ?_⟩
      intro c hc d hd
      rw [List.mem_singleton.1 hd]
      exact hchildren c hc
    · rw [childrenOf_attach_of_ne heq]
      exact h.increasing id

/-- A new draft is the last one, so it comes after all others. -/
theorem opened (h : Held b) (item : Item) (indent : Nat) : Held (b.opened item indent) := by
  have hchild : ∀ id, ∀ c ∈ b.drafts.childrenOf id, c < b.drafts.length :=
    fun id c hc => (h.later id c hc).2
  refine ⟨?_, ?_, ?_, fun id => ?_, fun id c hc => ?_⟩
  · rw [← h.bottom]
    exact List.getLast?_cons_of_ne_nil h.stack_ne_nil
  · simp only [Builder.opened, childrenOf_add]
    refine List.IsChain.cons h.ascending fun below hbelow => ?_
    exact ⟨h.id_lt (List.mem_of_mem_head? hbelow), hchild below.id⟩
  · simp only [Builder.opened, links_add, length_add, List.map_cons, List.cons_append,
      List.range_succ]
    exact (h.partition.cons _).trans (List.perm_append_singleton _ _).symm
  · rw [Builder.opened, childrenOf_add]
    exact h.increasing id
  · rw [Builder.opened, childrenOf_add] at hc
    rw [Builder.opened, length_add]
    exact ⟨(h.later id c hc).1, Nat.lt_succ_of_lt (h.later id c hc).2⟩

end Held

/-- A draft is given to the innermost open one as if it were opened and closed. -/
theorem pop?_opened (h : b.stack ≠ []) (item : Item) :
    (b.opened item 0).pop? = some (⟨b.drafts.length, 0⟩, b.append item) := by
  obtain ⟨top, stack, hs⟩ := List.exists_cons_of_ne_nil h
  simp [opened, pop?, append, Builder.top, hs]

theorem Held.append (h : Held b) (item : Item) : Held (b.append item) :=
  (h.opened item 0).pop (pop?_opened h.stack_ne_nil item)

/-! ### What lies on the stack -/

/-- The open drafts are not too many and no rows, and sections in sections are indented further. -/
structure Orderly (b : Builder) : Prop where
  length_le : b.stack.length ≤ maxDepth + 1
  not_row : ∀ o ∈ b.stack, ∀ text, b.drafts.item? o.id ≠ some (.row text)
  rising : b.stack.IsChain fun inner outer =>
    b.drafts.IsSect inner.id → b.drafts.IsSect outer.id → outer.indent < inner.indent
  shaped : b.drafts.Shaped

/-- What holds of a builder whenever it is between two operations. -/
structure Sound (b : Builder) : Prop extends Held b, Orderly b

namespace Sound

theorem start : Sound start := by
  refine ⟨Held.start, ⟨Nat.le_add_left 1 maxDepth, ?_, List.isChain_singleton _, Shaped.start⟩⟩
  simp [Builder.start, Drafts.start, item?]

theorem pop (h : Sound b) (hp : b.pop? = some (top, b')) : Sound b' := by
  refine ⟨h.toHeld.pop hp, ?_⟩
  obtain ⟨parent, stack, hs, rfl⟩ := pop?_eq_some_iff.1 hp
  have hmem : ∀ o ∈ parent :: stack, o ∈ b.stack := fun o ho => by
    rw [hs]
    exact List.mem_cons_of_mem _ ho
  refine ⟨?_, fun o ho text => ?_, ?_, ?_⟩
  · have := h.length_le
    rw [hs] at this
    exact Nat.le_of_succ_le this
  · rw [item?_attach]
    exact h.not_row o (hmem o ho) text
  · simp only [IsSect, item?_attach]
    exact (hs ▸ h.rising).tail
  · exact h.shaped.attach (h.not_row parent (hmem parent List.mem_cons_self))

theorem closes (h : Sound b) (hc : Closes b b') : Sound b' := by
  induction hc with
  | refl b => exact h
  | pop first _ ih => exact ih (h.pop first)

theorem item?_add_of_mem (h : Sound b) {o : OpenDraft} (ho : o ∈ b.stack) :
    (b.drafts.add item).item? o.id = b.drafts.item? o.id :=
  item?_add_of_ne (Nat.ne_of_lt (h.id_lt ho))

/-- A draft may be opened where the section around it is indented less. -/
theorem opened (h : Sound b) (hroot : item ≠ .root) (hrow : ∀ text, item ≠ .row text)
    (hlen : b.stack.length ≤ maxDepth)
    (hdeep : ∀ o ∈ b.stack.head?, b.drafts.IsSect o.id → o.indent < indent) :
    Sound (b.opened item indent) := by
  refine ⟨h.toHeld.opened item indent, ?_, fun o ho text => ?_, ?_, h.shaped.add hroot⟩
  · exact Nat.succ_le_succ hlen
  · rcases List.mem_cons.1 ho with rfl | ho
    · change (b.drafts.add item).item? b.drafts.length ≠ _
      rw [item?_add]
      exact fun heq => hrow text (Option.some.inj heq)
    · rw [Builder.opened, h.item?_add_of_mem ho]
      exact h.not_row o ho text
  · refine List.IsChain.cons ?_ fun o ho _ hsect => ?_
    · refine h.rising.imp_of_mem_imp fun inner outer hinner houter hr => ?_
      simp only [Builder.opened, IsSect, h.item?_add_of_mem hinner, h.item?_add_of_mem houter]
      exact hr
    · simp only [Builder.opened, IsSect, h.item?_add_of_mem (List.mem_of_mem_head? ho)] at hsect
      exact hdeep o ho hsect

theorem append (h : Sound b) (text : Text) : Sound (b.append (.row text)) := by
  have hitem : ∀ o ∈ b.stack, (b.append (.row text)).drafts.item? o.id = b.drafts.item? o.id := by
    intro o ho
    rw [Builder.append, item?_attach, h.item?_add_of_mem ho]
  refine ⟨h.toHeld.append _, h.length_le, fun o ho other => ?_, ?_, ?_⟩
  · rw [hitem o ho]
    exact h.not_row o ho other
  · refine h.rising.imp_of_mem_imp fun inner outer hinner houter hr => ?_
    simp only [IsSect, hitem inner hinner, hitem outer houter]
    exact hr
  · obtain ⟨top, stack, hs⟩ := List.exists_cons_of_ne_nil h.stack_ne_nil
    have htop : top ∈ b.stack := by simp [hs]
    refine (h.shaped.add Item.noConfusion).attach fun other => ?_
    have hid : b.top = top.id := by simp [Builder.top, hs]
    rw [hid, h.item?_add_of_mem htop]
    exact h.not_row top htop other

theorem item?_zero (h : Sound b) : b.drafts.item? 0 = some .root := (h.shaped.root_iff 0).2 rfl

theorem stack_of_pop?_none (h : Sound b) (hp : b.pop? = none) : b.stack = [⟨0, 0⟩] :=
  h.stack_of_length_le (length_le_one_of_pop? hp)

/-- After a collapse the innermost open draft, if it is a section, is indented less. -/
theorem lt_of_mem_collapse (h : Sound b) (indent : Nat) :
    ∀ o ∈ (b.collapse indent).stack.head?, (b.collapse indent).drafts.IsSect o.id →
      o.indent < indent := by
  fun_induction collapse b indent with
  | case1 b hp =>
    rw [h.stack_of_pop?_none hp]
    rintro _ ⟨⟩ ⟨name, ratio, hsect⟩
    exact absurd (h.item?_zero.symm.trans hsect) (by simp)
  | case2 b top b' hp hstop =>
    obtain ⟨parent, stack, hs, -⟩ := pop?_eq_some_iff.1 hp
    rw [hs]
    rintro _ ⟨⟩ ⟨name, ratio, hsect⟩
    refine hstop.resolve_left ?_
    simp [isGroup, hsect]
  | case3 b top b' hp hstop ih => exact ih (h.pop hp)

/-- The innermost open draft is no row, so a node may lie in it. -/
theorem acceptsChildren_top (h : Sound b) : b.acceptsChildren b.top = true := by
  obtain ⟨top, stack, hs⟩ := List.exists_cons_of_ne_nil h.stack_ne_nil
  have hnot := h.not_row top (by simp [hs])
  have htop : b.top = top.id := by simp [Builder.top, hs]
  unfold acceptsChildren
  rw [htop]
  split
  · next text hrow => exact absurd hrow (hnot text)
  · rfl

end Sound

/-! ### Reading lines -/

variable {line : Line} {lines : List Line}

theorem step_of_close (hf : line.form = .close) :
    b.step line = (b.closeGroup?.map Except.ok).getD (.error (.unmatchedClose line.number)) := by
  unfold step
  rw [hf]
  dsimp only
  cases b.closeGroup? <;> rfl

theorem Sound.step_of_row (h : Sound b) {text : Text} (hf : line.form = .item (.row text)) :
    b.step line = .ok ((b.collapse line.indent).append (.row text)) := by
  have haccepts := (h.closes (closes_collapse b line.indent)).acceptsChildren_top
  unfold step
  rw [hf]
  dsimp only
  rw [if_pos haccepts]

theorem Sound.step_of_item (h : Sound b) (hf : line.form = .item item)
    (hrow : ∀ text, item ≠ .row text) :
    b.step line = (b.collapse line.indent).push item line.indent line.number := by
  have haccepts := (h.closes (closes_collapse b line.indent)).acceptsChildren_top
  unfold step
  rw [hf]
  dsimp only
  rw [if_pos haccepts]
  cases item with
  | row text => exact absurd rfl (hrow text)
  | _ => rfl

theorem push_eq_ok_iff {number : Nat} :
    b.push item indent number = .ok b' ↔ b.stack.length ≤ maxDepth ∧ b' = b.opened item indent := by
  unfold push
  split_ifs with hlen
  · exact iff_of_false (by simp) fun h => absurd h.1 (Nat.not_le.2 hlen)
  · rw [Except.ok.injEq, eq_comm]
    exact (and_iff_right (Nat.not_lt.1 hlen)).symm

/-- A line closes a group, or it is a row, a section or a group. -/
theorem form_cases (line : Line) :
    line.form = .close ∨ (∃ text, line.form = .item (.row text)) ∨
      ∃ item, line.form = .item item ∧ item ≠ .root ∧ ∀ text, item ≠ .row text := by
  cases hf : line.form with
  | close => exact .inl rfl
  | item item =>
    by_cases hrow : ∃ text, item = .row text
    · obtain ⟨text, rfl⟩ := hrow
      exact .inr (.inl ⟨text, rfl⟩)
    · have hroot : item ≠ .root := fun heq => read_ne_root line.text (heq ▸ hf)
      exact .inr (.inr ⟨item, rfl, hroot, fun text heq => hrow ⟨text, heq⟩⟩)

/-- What a line does that is read. -/
theorem Sound.step_eq_ok (h : Sound b) (hs : b.step line = .ok b') :
    (line.form = .close ∧ b.closeGroup? = some b') ∨
      (∃ text, line.form = .item (.row text) ∧
        b' = (b.collapse line.indent).append (.row text)) ∨
      ∃ item, line.form = .item item ∧ item ≠ .root ∧ (∀ text, item ≠ .row text) ∧
        (b.collapse line.indent).stack.length ≤ maxDepth ∧
        b' = (b.collapse line.indent).opened item line.indent := by
  rcases form_cases line with hf | ⟨text, hf⟩ | ⟨item, hf, hroot, hrow⟩
  · rw [step_of_close hf] at hs
    cases hc : b.closeGroup? with
    | none => simp [hc] at hs
    | some outer =>
      rw [hc] at hs
      exact .inl ⟨hf, congrArg some (Except.ok.inj hs)⟩
  · rw [h.step_of_row hf] at hs
    exact .inr (.inl ⟨text, hf, (Except.ok.inj hs).symm⟩)
  · rw [h.step_of_item hf hrow, push_eq_ok_iff] at hs
    exact .inr (.inr ⟨item, hf, hroot, hrow, hs⟩)

/-- Why a line is refused. -/
theorem Sound.step_eq_error (h : Sound b) {e : ParseError} (hs : b.step line = .error e) :
    (line.form = .close ∧ b.closeGroup? = none ∧ e = .unmatchedClose line.number) ∨
      ∃ item, line.form = .item item ∧ item ≠ .root ∧ (∀ text, item ≠ .row text) ∧
        maxDepth < (b.collapse line.indent).stack.length ∧ e = .tooDeep line.number maxDepth := by
  rcases form_cases line with hf | ⟨text, hf⟩ | ⟨item, hf, hroot, hrow⟩
  · rw [step_of_close hf] at hs
    cases hc : b.closeGroup? with
    | none =>
      rw [hc] at hs
      exact .inl ⟨hf, rfl, (Except.error.inj hs).symm⟩
    | some outer => simp [hc] at hs
  · simp [h.step_of_row hf] at hs
  · rw [h.step_of_item hf hrow, push] at hs
    split_ifs at hs with hlen
    exact .inr ⟨item, hf, hroot, hrow, hlen, (Except.error.inj hs).symm⟩

theorem Sound.step (h : Sound b) (hs : b.step line = .ok b') : Sound b' := by
  have hcollapse := h.closes (closes_collapse b line.indent)
  rcases h.step_eq_ok hs with ⟨-, hc⟩ | ⟨text, -, rfl⟩ | ⟨item, -, hroot, hrow, hlen, rfl⟩
  · exact h.closes (closes_of_closeGroup? hc)
  · exact hcollapse.append text
  · exact hcollapse.opened hroot hrow hlen (h.lt_of_mem_collapse line.indent)

theorem Sound.run (h : Sound b) (hr : b.run lines = .ok b') : Sound b' := by
  induction lines generalizing b with
  | nil =>
    obtain rfl := Except.ok.inj hr
    exact h
  | cons line lines ih =>
    obtain ⟨mid, hs, hr⟩ := bind_eq_ok_iff.1 hr
    exact ih (h.step hs) hr

/-- No line puts a node below a row. -/
theorem Sound.step_ne_invalidNesting (h : Sound b) (line : Line) (number : Nat) :
    b.step line ≠ .error (.invalidNesting number) := by
  intro hs
  rcases h.step_eq_error hs with ⟨-, -, he⟩ | ⟨-, -, -, -, -, he⟩ <;> contradiction

/-! ### Between the operations -/

/-- A draft is open and held by none, or it is closed and held once, by one before it. -/
def Settled (b : Builder) (id : Nat) : Prop :=
  (id ∈ b.stack.map (·.id) ∧ ∀ parent, id ∉ b.drafts.childrenOf parent) ∨
    (id ∉ b.stack.map (·.id) ∧ ∃ parent < id, (b.drafts.childrenOf parent).count id = 1 ∧
      ∀ other, other ≠ parent → id ∉ b.drafts.childrenOf other)

/-- The stack and the drafts of a builder are in order. -/
structure WellFormed (b : Builder) : Prop where
  /-- The root is open, as the outermost draft. -/
  bottom : b.stack.getLast? = some ⟨0, 0⟩ ∧ b.drafts.item? 0 = some .root
  length_le : b.stack.length ≤ 49
  not_row : ∀ o ∈ b.stack, ∃ item, b.drafts.item? o.id = some item ∧ ∀ text, item ≠ .row text
  /-- Open sections right in each other are indented further and further. -/
  rising : ∀ run, run <:+: b.stack → (∀ o ∈ run, b.drafts.IsSect o.id) →
    run.Pairwise fun inner outer => outer.indent < inner.indent
  settled : ∀ id < b.drafts.length, b.Settled id
  /-- What is open or held is a draft. -/
  lt_length : (∀ o ∈ b.stack, o.id < b.drafts.length) ∧
    ∀ id, ∀ c ∈ b.drafts.childrenOf id, c < b.drafts.length
  increasing : ∀ id, (b.drafts.childrenOf id).Pairwise (· < ·)

theorem Orderly.pairwise_of_infix (h : Orderly b) {run : List OpenDraft} (hrun : run <:+: b.stack)
    (hsect : ∀ o ∈ run, b.drafts.IsSect o.id) :
    run.Pairwise fun inner outer => outer.indent < inner.indent := by
  let deeper : OpenDraft → OpenDraft → Prop := fun inner outer => outer.indent < inner.indent
  have : Trans deeper deeper deeper := ⟨fun hinner houter => Nat.lt_trans houter hinner⟩
  obtain ⟨above, below, hs⟩ := hrun
  have hrising := (hs ▸ h.rising).left_of_append.right_of_append
  have hchain : run.IsChain deeper := hrising.imp_of_mem_imp fun inner outer hinner houter hr =>
    hr (hsect inner hinner) (hsect outer houter)
  exact hchain.pairwise

theorem Held.settled (h : Held b) {id : Nat} (hid : id < b.drafts.length) : b.Settled id := by
  have hdisjoint := (List.nodup_append'.1 h.nodup).2.2
  rcases List.mem_append.1 (h.partition.mem_iff.2 (List.mem_range.2 hid)) with hopen | hheld
  · exact .inl ⟨hopen, fun parent hc => hdisjoint hopen (mem_links_iff.2 ⟨parent, hc⟩)⟩
  · obtain ⟨parent, hc⟩ := mem_links_iff.1 hheld
    refine .inr ⟨fun hopen => hdisjoint hopen hheld, parent, (h.later parent id hc).1, ?_, ?_⟩
    · exact List.count_eq_one_of_mem (nodup_childrenOf h.nodup_links parent) hc
    · exact fun other hne hother => hne (parent_unique h.nodup_links hother hc)

theorem Sound.wellFormed (h : Sound b) : b.WellFormed where
  bottom := ⟨h.bottom, h.item?_zero⟩
  length_le := h.length_le
  not_row := by
    intro o ho
    obtain ⟨d, hd⟩ := exists_getElem?_of_lt (h.id_lt ho)
    have hitem := item?_of_getElem? hd
    refine ⟨d.item, hitem, fun text hrow => h.not_row o ho text ?_⟩
    rw [hitem, hrow]
  rising _ := h.pairwise_of_infix
  settled _ := h.settled
  lt_length := ⟨fun _ => h.id_lt, fun id c hc => (h.later id c hc).2⟩
  increasing := h.increasing

/-- Whatever lines were read, the builder is in order then and after each way of closing drafts, and
no line finds a row where a node is to lie. -/
theorem wellFormed_of_run (h : start.run lines = .ok b) :
    b.WellFormed ∧ (∀ indent, (b.collapse indent).WellFormed) ∧
      (∀ b', b.closeGroup? = some b' → b'.WellFormed) ∧ b.closeAll.WellFormed ∧
      ∀ line number, b.step line ≠ .error (.invalidNesting number) := by
  have hsound : Sound b := Sound.start.run h
  refine ⟨hsound.wellFormed, fun indent => ?_, fun b' hc => ?_, ?_, ?_⟩
  · exact (hsound.closes (closes_collapse b indent)).wellFormed
  · exact (hsound.closes (closes_of_closeGroup? hc)).wellFormed
  · exact (hsound.closes (closes_closeAll b)).wellFormed
  · exact hsound.step_ne_invalidNesting

/-- A section with a group in it, where a section ends another two. -/
def sampleLines : List Line :=
  [⟨1, 0, "=a".toList⟩, ⟨2, 1, "[".toList⟩, ⟨3, 0, "=b".toList⟩, ⟨4, 1, "=c".toList⟩,
    ⟨5, 2, "x".toList⟩, ⟨7, 0, "=d".toList⟩]

def sampleBuilder : Builder :=
  ⟨[⟨.root, []⟩, ⟨.sect "a".toList none, []⟩, ⟨.group, [3]⟩, ⟨.sect "b".toList none, [4]⟩,
    ⟨.sect "c".toList none, [5]⟩, ⟨.row "x".toList, []⟩, ⟨.sect "d".toList none, []⟩],
    [⟨6, 0⟩, ⟨2, 1⟩, ⟨1, 0⟩, ⟨0, 0⟩]⟩

theorem run_sampleLines : start.run sampleLines = .ok sampleBuilder := by
  with_unfolding_all rfl

theorem wellFormed_of_run_sample :
    start.run sampleLines = .ok sampleBuilder ∧ sampleBuilder.WellFormed :=
  ⟨run_sampleLines, (wellFormed_of_run run_sampleLines).1⟩

end Wireframe.Source.Builder
