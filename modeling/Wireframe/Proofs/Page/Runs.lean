import Mathlib.Data.List.Chain
import Wireframe.Page.Tree

/-! Runs of table rows among the children of a node. A list of nodes falls into blocks, its maximal
runs of table rows and its other nodes, in one way (`runs_iff`), and merging makes one table of each
run and leaves the other nodes as they are (`mergeTables_parts`). -/

namespace Wireframe.Page

open Row

/-! ### Blocks -/

/-- A part of a list of nodes: table rows that stand together, or one other node. -/
inductive Block where
  | table (first : Text) (more : List Text)
  | other (t : Node)

namespace Block

def nodes : Block → List Node
  | table first more => .row first :: more.map .row
  | other t => [t]

def isTable : Block → Bool
  | table _ _ => true
  | other _ => false

/-- The rows of a table are table rows, and no other node is one. -/
def Proper : Block → Prop
  | table first more => ∀ text ∈ first :: more, isTableRow text = true
  | other t => ∀ text, t = .row text → isTableRow text = false

def markup : Block → Markup
  | table first more => tableMarkup (tableCells first) (more.map tableCells)
  | other t => nodeMarkup t

end Block

/-- The blocks of a list of nodes: they are its nodes in order, and no run of table rows follows
another, so each is as long as can be. -/
structure Runs (ts : List Node) (bs : List Block) : Prop where
  nodes : bs.flatMap Block.nodes = ts
  proper : ∀ b ∈ bs, b.Proper
  maximal : bs.IsChain fun b c => b.isTable = false ∨ c.isTable = false

variable {t : Node} {ts : List Node} {b : Block} {bs cs : List Block}

/-- Puts a table row in front of blocks. -/
def addRow (text : Text) : List Block → List Block
  | .table first more :: bs => .table text (first :: more) :: bs
  | bs => .table text [] :: bs

/-- The blocks of a list of nodes. -/
def blocks : List Node → List Block
  | [] => []
  | .row text :: ts =>
    if isTableRow text then addRow text (blocks ts) else .other (.row text) :: blocks ts
  | t :: ts => .other t :: blocks ts

theorem runs_addRow {text : Text} (ht : isTableRow text = true) (h : Runs ts bs) :
    Runs (.row text :: ts) (addRow text bs) := by
  obtain ⟨rfl, hproper, hmaximal⟩ := h
  fun_cases addRow text bs with
  | case1 first more bs =>
    obtain ⟨hrows, hproper⟩ := List.forall_mem_cons.1 hproper
    refine ⟨rfl, List.forall_mem_cons.2 ⟨List.forall_mem_cons.2 ⟨ht, hrows⟩, hproper⟩, ?_⟩
    rw [List.isChain_cons] at hmaximal ⊢
    exact hmaximal
  | case2 _ hne =>
    refine ⟨rfl, List.forall_mem_cons.2 ⟨List.forall_mem_singleton.2 ht, hproper⟩, ?_⟩
    refine List.isChain_cons.2 ⟨fun b hb => .inr ?_, hmaximal⟩
    cases b with
    | table first more =>
      obtain ⟨rest, hrest⟩ := List.head?_eq_some_iff.1 hb
      exact absurd hrest (hne first more rest)
    | other t => rfl

theorem runs_other (ht : (Block.other t).Proper) (h : Runs ts bs) :
    Runs (t :: ts) (.other t :: bs) where
  nodes := by rw [List.flatMap_cons, h.nodes]; rfl
  proper := List.forall_mem_cons.2 ⟨ht, h.proper⟩
  maximal := List.isChain_cons.2 ⟨fun _ _ => .inl rfl, h.maximal⟩

theorem runs_blocks (ts : List Node) : Runs ts (blocks ts) := by
  fun_induction blocks ts with
  | case1 => exact ⟨rfl, by simp, List.isChain_nil⟩
  | case2 text ts ht ih => exact runs_addRow ht ih
  | case3 text ts ht ih =>
    refine runs_other (fun u hu => ?_) ih
    cases hu
    exact Bool.eq_false_iff.2 ht
  | case4 t ts hne ih => exact runs_other (fun u hu => absurd hu (hne u)) ih

/-- Table rows in front of blocks that start with no table are one table. -/
theorem blocks_table {first : Text} {more : List Text}
    (hrows : ∀ text ∈ first :: more, isTableRow text = true)
    (h : ∀ b ∈ (blocks ts).head?, b.isTable = false) :
    blocks ((Block.table first more).nodes ++ ts) = .table first more :: blocks ts := by
  induction more generalizing first with
  | nil =>
    have hfirst : isTableRow first = true := hrows first List.mem_cons_self
    have hadd : ∀ bs : List Block, (∀ b ∈ bs.head?, b.isTable = false) →
        addRow first bs = .table first [] :: bs := by
      intro bs hbs
      fun_cases addRow first bs with
      | case1 next rest bs => exact absurd (hbs _ rfl) (by simp [Block.isTable])
      | case2 => rfl
    simp only [Block.nodes, List.map_nil, List.cons_append, List.nil_append, blocks, hfirst,
      ↓reduceIte]
    exact hadd _ h
  | cons next more ih =>
    obtain ⟨hfirst, hrows⟩ := List.forall_mem_cons.1 hrows
    have hnext := ih hrows
    simp only [Block.nodes, List.map_cons, List.cons_append] at hnext ⊢
    rw [blocks, if_pos hfirst, hnext, addRow]

theorem blocks_other (ht : (Block.other t).Proper) : blocks (t :: ts) = .other t :: blocks ts := by
  cases t with
  | row text => rw [blocks, if_neg (by simp [ht text rfl])]
  | _ => rw [blocks]; simp

theorem blocks_of_runs (h : Runs ts bs) : blocks ts = bs := by
  obtain ⟨rfl, hproper, hmaximal⟩ := h
  induction bs with
  | nil => rfl
  | cons b bs ih =>
    obtain ⟨hb, hproper⟩ := List.forall_mem_cons.1 hproper
    obtain ⟨hfirst, hmaximal⟩ := List.isChain_cons.1 hmaximal
    have hrest := ih hproper hmaximal
    rw [List.flatMap_cons]
    cases b with
    | table first more =>
      rw [blocks_table hb (by rw [hrest]; simpa [Block.isTable] using hfirst), hrest]
    | other t => exact (blocks_other hb).trans (congrArg _ hrest)

/-- A list of nodes falls into blocks in one way. -/
theorem runs_iff : Runs ts cs ↔ cs = blocks ts :=
  ⟨fun h => (blocks_of_runs h).symm, fun h => h ▸ runs_blocks ts⟩

/-! ### Merging -/

theorem parts_append (ts us : List Node) : parts (ts ++ us) = parts ts ++ parts us := by
  induction ts with
  | nil => rfl
  | cons t ts ih => rw [List.cons_append, parts, ih, parts, List.cons_append]

theorem parts_rows {texts : List Text} (h : ∀ text ∈ texts, isTableRow text = true) :
    parts (texts.map .row) = texts.map (.tableRow ∘ tableCells) := by
  induction texts with
  | nil => rfl
  | cons text texts ih =>
    obtain ⟨ht, hts⟩ := List.forall_mem_cons.1 h
    rw [List.map_cons, parts, ih hts, tableCells?, if_pos ht]
    rfl

theorem parts_other (h : (Block.other t).Proper) : parts [t] = [.markup (nodeMarkup t)] := by
  cases t with
  | row text => simp [parts, tableCells?, h text rfl]
  | _ => rfl

theorem mergeAfter_tableRows (rows cells : List (List Text)) (ps : List Part) :
    mergeAfter rows (cells.map .tableRow ++ ps) = mergeAfter (rows ++ cells) ps := by
  induction cells generalizing rows with
  | nil => rw [List.map_nil, List.nil_append, List.append_nil]
  | cons row cells ih =>
    rw [List.map_cons, List.cons_append, mergeAfter, ih, List.append_assoc, List.singleton_append]

/-- Table rows are closed off before parts that start with none. -/
theorem mergeAfter_eq_closeTable (rows : List (List Text)) {ps : List Part}
    (h : ∀ cells, ps.head? ≠ some (.tableRow cells)) :
    mergeAfter rows ps = closeTable rows (mergeAfter [] ps) := by
  cases ps with
  | nil => rfl
  | cons part ps =>
    cases part with
    | tableRow cells => exact absurd rfl (h cells)
    | markup m => rfl

theorem parts_flatMap_head? (hproper : ∀ b ∈ bs, b.Proper)
    (h : ∀ b ∈ bs.head?, b.isTable = false) (cells : List Text) :
    (parts (bs.flatMap Block.nodes)).head? ≠ some (.tableRow cells) := by
  cases bs with
  | nil => simp [parts]
  | cons b bs =>
    cases b with
    | table first more => exact absurd (h _ rfl) (by simp [Block.isTable])
    | other t =>
      rw [List.flatMap_cons, parts_append, Block.nodes,
        parts_other (hproper _ List.mem_cons_self)]
      simp

/-- Each run of table rows becomes one table, and the other nodes keep their places. -/
theorem mergeTables_parts (h : Runs ts bs) : mergeTables (parts ts) = bs.map Block.markup := by
  obtain ⟨rfl, hproper, hmaximal⟩ := h
  rw [mergeTables]
  induction bs with
  | nil => rfl
  | cons b bs ih =>
    obtain ⟨hb, hrest⟩ := List.forall_mem_cons.1 hproper
    obtain ⟨hfirst, hmaximal⟩ := List.isChain_cons.1 hmaximal
    have hmore := ih hrest hmaximal
    rw [List.flatMap_cons, parts_append, List.map_cons]
    cases b with
    | table first more =>
      have hparts : parts (Block.table first more).nodes =
          ((first :: more).map tableCells).map .tableRow := by
        rw [List.map_map]
        exact parts_rows hb
      have hhead := parts_flatMap_head? hrest (by simpa [Block.isTable] using hfirst)
      rw [hparts, mergeAfter_tableRows, mergeAfter_eq_closeTable _ hhead, hmore]
      rfl
    | other t =>
      rw [Block.nodes, parts_other hb, List.singleton_append, mergeAfter, hmore]
      rfl

end Wireframe.Page
