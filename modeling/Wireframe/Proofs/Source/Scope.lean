import Mathlib.Data.Finset.Card
import Mathlib.Data.Nat.Count
import Wireframe.Proofs.Source.Parse

/-! Which lines are open at a line, said without a parser. A closing bracket is paired
with the nearest earlier opening bracket that is not paired yet (`Paired`). A group is
open until its closing bracket; a section is open until a bracket around it closes or
until a line reaches back to its indent and no group opened in between shields it
(`OpenAt`). Lines open at an open line are open (`OpenAt.trans`), so the number of
open lines alone tells which lines are open (`openAt_iff_card`). -/

namespace Wireframe.Source

variable {lines : List Line}

/-! ### Kinds of lines -/

section
variable (lines : List Line)

/-- Line `i` is a closing bracket. -/
def ClosesAt (i : Nat) : Prop := ∃ line ∈ lines[i]?, line.text = [']']

/-- Line `i` is an opening bracket. -/
def GroupAt (i : Nat) : Prop := ∃ line ∈ lines[i]?, line.text = ['[']

/-- Line `i` is a section header. -/
def SectAt (i : Nat) : Prop := ∃ line ∈ lines[i]?, line.text.head? = some '='

/-- Line `i` is any line but a closing bracket. -/
def ItemAt (i : Nat) : Prop := ∃ line ∈ lines[i]?, line.text ≠ [']']

instance : DecidablePred (ItemAt lines) := fun i =>
  inferInstanceAs (Decidable (∃ line ∈ lines[i]?, line.text ≠ [']']))

def indentAt (i : Nat) : Nat := (lines[i]?.map (·.indent)).getD 0

/-! ### Pairs of brackets and open lines -/

/-- The closing bracket of line `c` is paired with the opening bracket of line `g`: the nearest
earlier one that no closing bracket before `c` is paired with. -/
def Paired (c g : Nat) : Prop :=
  ClosesAt lines c ∧ GroupAt lines g ∧ g < c ∧ (∀ c', c' < c → ¬ Paired c' g) ∧
    ∀ g', g < g' → g' < c → GroupAt lines g' → ∃ c', ∃ _ : c' < c, Paired c' g'
termination_by c

/-- The group of line `g` is not closed before line `i`. -/
def Unclosed (g i : Nat) : Prop := GroupAt lines g ∧ ∀ c < i, ¬ Paired lines c g

/-- Line `k` does not reach back to line `j`, or a group opened between them is still unclosed. -/
def Shielded (j k : Nat) : Prop :=
  ItemAt lines k → indentAt lines k ≤ indentAt lines j → ∃ g, j < g ∧ g < k ∧ Unclosed lines g k

/-- No group opened before line `j` is closed between the lines `j` and `i`. -/
def Enclosed (j i : Nat) : Prop := ∀ g c, g < j → j < c → c < i → ¬ Paired lines c g

/-- The section or group of line `j` is open at line `i`. -/
def OpenAt (j i : Nat) : Prop :=
  j < i ∧ (Unclosed lines j i ∨
    SectAt lines j ∧ Enclosed lines j i ∧ ∀ k, j < k → k ≤ i → Shielded lines j k)

/-- The section or group of line `j` is open when line `i` is reached. -/
def LiveAt (j i : Nat) : Prop :=
  j < i ∧ (Unclosed lines j i ∨
    SectAt lines j ∧ Enclosed lines j i ∧ ∀ k, j < k → k < i → Shielded lines j k)

end

theorem GroupAt.not_sectAt {i : Nat} (h : GroupAt lines i) : ¬ SectAt lines i := by
  obtain ⟨line, hl, ht⟩ := h
  rintro ⟨line', hl', ht'⟩
  obtain rfl := Option.mem_unique hl hl'
  simp [ht] at ht'

theorem ClosesAt.not_itemAt {i : Nat} (h : ClosesAt lines i) : ¬ ItemAt lines i := by
  obtain ⟨line, hl, ht⟩ := h
  rintro ⟨line', hl', ht'⟩
  obtain rfl := Option.mem_unique hl hl'
  exact ht' ht

theorem GroupAt.itemAt {i : Nat} (h : GroupAt lines i) : ItemAt lines i := by
  obtain ⟨line, hl, ht⟩ := h
  exact ⟨line, hl, by simp [ht]⟩

theorem SectAt.itemAt {i : Nat} (h : SectAt lines i) : ItemAt lines i := by
  obtain ⟨line, hl, ht⟩ := h
  refine ⟨line, hl, ?_⟩
  rintro hc
  simp [hc] at ht

theorem LiveAt.groupAt_or_sectAt {j i : Nat} (h : LiveAt lines j i) :
    GroupAt lines j ∨ SectAt lines j :=
  h.2.imp (·.1) (·.1)

theorem OpenAt.liveAt {j i : Nat} (h : OpenAt lines j i) : LiveAt lines j i :=
  ⟨h.1, h.2.imp id fun ⟨hs, he, hk⟩ => ⟨hs, he, fun k h1 h2 => hk k h1 (Nat.le_of_lt h2)⟩⟩

theorem OpenAt.itemAt {j i : Nat} (h : OpenAt lines j i) : ItemAt lines j :=
  h.liveAt.groupAt_or_sectAt.elim (·.itemAt) (·.itemAt)

/-! ### Pairs -/

theorem Paired.closesAt {c g : Nat} (h : Paired lines c g) : ClosesAt lines c := by
  rw [Paired] at h
  exact h.1

theorem Paired.groupAt {c g : Nat} (h : Paired lines c g) : GroupAt lines g := by
  rw [Paired] at h
  exact h.2.1

theorem Paired.lt {c g : Nat} (h : Paired lines c g) : g < c := by
  rw [Paired] at h
  exact h.2.2.1

theorem ItemAt.not_paired {i : Nat} (h : ItemAt lines i) (g : Nat) : ¬ Paired lines i g :=
  fun hp => hp.closesAt.not_itemAt h

/-- A closing bracket is paired with the latest group that is unclosed at it. -/
theorem paired_iff {c g : Nat} :
    Paired lines c g ↔
      ClosesAt lines c ∧ g < c ∧ Unclosed lines g c ∧
        ∀ g', g < g' → g' < c → ¬ Unclosed lines g' c := by
  rw [Paired]
  constructor
  · rintro ⟨hc, hg, hlt, hun, hnear⟩
    refine ⟨hc, hlt, ⟨hg, hun⟩, fun g' h1 h2 hun' => ?_⟩
    obtain ⟨c', hc', hp⟩ := hnear g' h1 h2 hun'.1
    exact hun'.2 c' hc' hp
  · rintro ⟨hc, hlt, hun, hnear⟩
    refine ⟨hc, hun.1, hlt, hun.2, fun g' h1 h2 hg' => ?_⟩
    by_contra hno
    push Not at hno
    exact hnear g' h1 h2 ⟨hg', hno⟩

theorem Paired.unclosed {c g : Nat} (h : Paired lines c g) : Unclosed lines g c :=
  (paired_iff.1 h).2.2.1

/-- A group opened in another is closed before it. -/
theorem Paired.inner_closed {c g g' : Nat} (h : Paired lines c g) (hg : g < g') (hc : g' < c) :
    ¬ Unclosed lines g' c :=
  (paired_iff.1 h).2.2.2 g' hg hc

theorem Paired.unique {c g g' : Nat} (h : Paired lines c g) (h' : Paired lines c g') : g = g' := by
  rcases Nat.lt_trichotomy g g' with hlt | rfl | hgt
  · exact absurd h'.unclosed (h.inner_closed hlt h'.lt)
  · rfl
  · exact absurd h.unclosed (h'.inner_closed hgt h.lt)

theorem Unclosed.mono {g i k : Nat} (h : Unclosed lines g i) (hk : k ≤ i) : Unclosed lines g k :=
  ⟨h.1, fun c hc => h.2 c (Nat.lt_of_lt_of_le hc hk)⟩

/-- While a group is unclosed, none opened before it is closed. -/
theorem Unclosed.enclosed {g i : Nat} (h : Unclosed lines g i) : Enclosed lines g i := by
  intro g' c hg hc hi hp
  exact hp.inner_closed hg hc (h.mono (Nat.le_of_lt hi))

/-- What was unclosed at a line stays so while the line is enclosed. -/
theorem Unclosed.extend {g j i : Nat} (h : Unclosed lines g j) (hg : g < j) (hj : ItemAt lines j)
    (he : Enclosed lines j i) : Unclosed lines g i := by
  refine ⟨h.1, fun c hc hp => ?_⟩
  rcases Nat.lt_trichotomy c j with hlt | rfl | hgt
  · exact h.2 c hlt hp
  · exact hj.not_paired g hp
  · exact he g c hg hgt hc hp

/-! ### Open lines -/

theorem OpenAt.enclosed {j i : Nat} (h : OpenAt lines j i) : Enclosed lines j i :=
  h.2.elim (·.enclosed) (·.2.1)

/-- An open line was open before. -/
theorem OpenAt.mono {j i k : Nat} (h : OpenAt lines j i) (hj : j < k) (hk : k ≤ i) :
    OpenAt lines j k := by
  refine ⟨hj, h.2.imp (·.mono hk) fun ⟨hs, he, hsh⟩ => ⟨hs, ?_, ?_⟩⟩
  · exact fun g c hg hc hck => he g c hg hc (Nat.lt_of_lt_of_le hck hk)
  · exact fun l h1 h2 => hsh l h1 (Nat.le_trans h2 hk)

/-- A line that is open at an open line stays open with it. -/
theorem OpenAt.trans {i j k : Nat} (h : OpenAt lines i j) (h' : OpenAt lines j k) :
    OpenAt lines i k := by
  refine ⟨Nat.lt_trans h.1 h'.1, ?_⟩
  rcases h.2 with hun | ⟨hs, he, hsh⟩
  · exact .inl (hun.extend h.1 h'.itemAt h'.enclosed)
  · refine .inr ⟨hs, ?_, fun l h1 h2 => ?_⟩
    · intro g c hg hc hck hp
      rcases Nat.lt_trichotomy c j with hlt | rfl | hgt
      · exact he g c hg hc hlt hp
      · exact h'.itemAt.not_paired g hp
      · exact h'.enclosed g c (Nat.lt_trans hg h.1) hgt hck hp
    · rcases Nat.lt_or_ge j l with hjl | hlj
      · intro hl hin
        rcases h'.2 with hun' | ⟨hs', he', hsh'⟩
        · exact ⟨j, h.1, hjl, hun'.mono h2⟩
        · by_cases hind : indentAt lines j ≤ indentAt lines i
          · -- a group between `i` and `j` shields `i` at `j`, and stays unclosed with `j`
            obtain ⟨g, hig, hgj, hun⟩ := hsh j h.1 (Nat.le_refl j) h'.itemAt hind
            exact ⟨g, hig, Nat.lt_trans hgj hjl, (hun.extend hgj h'.itemAt he').mono h2⟩
          · obtain ⟨g, hjg, hgl, hun⟩ := hsh' l hjl h2 hl (by omega)
            exact ⟨g, Nat.lt_trans h.1 hjg, hgl, hun⟩
      · exact hsh l h1 hlj

/-! ### Counting open lines -/

section
open Classical

variable (lines) in
/-- The lines that are open at line `i`. -/
noncomputable def openLines (i : Nat) : Finset Nat := (Finset.range i).filter (OpenAt lines · i)

theorem mem_openLines {j i : Nat} : j ∈ openLines lines i ↔ OpenAt lines j i := by
  rw [openLines, Finset.mem_filter, Finset.mem_range]
  exact and_iff_right_of_imp (·.1)

theorem card_openLines_lt {j i : Nat} (h : OpenAt lines j i) :
    (openLines lines j).card < (openLines lines i).card := by
  refine Finset.card_lt_card (Finset.ssubset_iff_of_subset ?_ |>.2 ⟨j, mem_openLines.2 h, ?_⟩)
  · intro l hl
    exact mem_openLines.2 ((mem_openLines.1 hl).trans h)
  · exact fun hj => absurd (mem_openLines.1 hj).1 (Nat.lt_irrefl j)

/-- A line is open exactly when all items since have more open lines than it has. -/
theorem openAt_iff_card {j i : Nat} (hi : ItemAt lines i) (hlt : j < i) :
    OpenAt lines j i ↔
      ∀ k, j < k → k ≤ i → ItemAt lines k →
        (openLines lines j).card < (openLines lines k).card := by
  constructor
  · exact fun h k hk hki _ => card_openLines_lt (h.mono hk hki)
  · intro hall
    by_contra hno
    -- at the first item where `j` is not open, nothing is open that was not open at `j`
    have hex : ∃ k, j < k ∧ k ≤ i ∧ ItemAt lines k ∧ ¬ OpenAt lines j k :=
      ⟨i, hlt, Nat.le_refl i, hi, hno⟩
    obtain ⟨hk, hki, hkitem, hknot⟩ := Nat.find_spec hex
    refine absurd (hall _ hk hki hkitem) (Nat.not_lt.2 (Finset.card_le_card fun l hl => ?_))
    have hl := mem_openLines.1 hl
    rcases Nat.lt_trichotomy l j with hlj | rfl | hjl
    · exact mem_openLines.2 (hl.mono hlj (Nat.le_of_lt hk))
    · exact absurd hl hknot
    · refine absurd (OpenAt.trans ?_ hl) hknot
      by_contra hnot
      exact Nat.find_min hex hl.1 ⟨hjl, Nat.le_trans (Nat.le_of_lt hl.1) hki, hl.itemAt, hnot⟩

/-- The latest open line has one open line less. -/
theorem card_openLines_of_latest {j i : Nat} (h : OpenAt lines j i)
    (hlast : ∀ l, OpenAt lines l i → l ≤ j) :
    (openLines lines i).card = (openLines lines j).card + 1 := by
  have hins : openLines lines i = insert j (openLines lines j) := by
    ext l
    rw [Finset.mem_insert, mem_openLines, mem_openLines]
    constructor
    · intro hl
      rcases Nat.eq_or_lt_of_le (hlast l hl) with rfl | hlj
      · exact .inl rfl
      · exact .inr (hl.mono hlj (Nat.le_of_lt h.1))
    · rintro (rfl | hl)
      · exact h
      · exact hl.trans h
  rw [hins, Finset.card_insert_of_notMem]
  exact fun hj => absurd (mem_openLines.1 hj).1 (Nat.lt_irrefl j)

end

/-! ### One line further -/

theorem forall_between_succ {p : Nat → Prop} {j i : Nat} :
    (∀ k, j < k → k < i + 1 → p k) ↔ (∀ k, j < k → k < i → p k) ∧ (j < i → p i) := by
  constructor
  · exact fun h => ⟨fun k hjk hki => h k hjk (by omega), fun hji => h i hji (by omega)⟩
  · rintro ⟨h, hlast⟩ k hjk hki
    rcases Nat.eq_or_lt_of_le (Nat.le_of_lt_succ hki) with rfl | hlt
    · exact hlast hjk
    · exact h k hjk hlt

/-- A live line is open at the next line unless that line ends it. -/
theorem openAt_iff_liveAt {j i : Nat} :
    OpenAt lines j i ↔ LiveAt lines j i ∧ (SectAt lines j → Shielded lines j i) := by
  constructor
  · intro h
    refine ⟨h.liveAt, fun hs => ?_⟩
    rcases h.2 with hun | ⟨-, -, hsh⟩
    · exact absurd hs hun.1.not_sectAt
    · exact hsh i h.1 (Nat.le_refl i)
  · rintro ⟨⟨hlt, hl⟩, hs⟩
    refine ⟨hlt, hl.imp id fun ⟨hsect, he, hsh⟩ => ⟨hsect, he, fun k hjk hki => ?_⟩⟩
    exact forall_between_succ.2 ⟨hsh, fun _ => hs hsect⟩ k hjk (Nat.lt_succ_of_le hki)

theorem unclosed_succ {g i : Nat} :
    Unclosed lines g (i + 1) ↔ Unclosed lines g i ∧ ¬ Paired lines i g := by
  unfold Unclosed
  rw [Nat.forall_lt_succ_right, and_assoc]

theorem enclosed_succ {j i : Nat} :
    Enclosed lines j (i + 1) ↔
      Enclosed lines j i ∧ (j < i → ∀ g, g < j → ¬ Paired lines i g) := by
  have hswap : ∀ n, Enclosed lines j n ↔
      ∀ c, j < c → c < n → ∀ g, g < j → ¬ Paired lines c g :=
    fun n => ⟨fun h c hc hcn g hg => h g c hg hc hcn, fun h g c hg hc hcn => h c hc hcn g hg⟩
  rw [hswap, hswap, forall_between_succ]

/-- After an item, the lines open at it are open, and the item itself if it opens anything. -/
theorem liveAt_succ_of_itemAt {j i : Nat} (hi : ItemAt lines i) :
    LiveAt lines j (i + 1) ↔
      OpenAt lines j i ∨ j = i ∧ (GroupAt lines i ∨ SectAt lines i) := by
  have hun : Unclosed lines j (i + 1) ↔ Unclosed lines j i := by
    rw [unclosed_succ]
    exact and_iff_left (hi.not_paired j)
  have hen : Enclosed lines j (i + 1) ↔ Enclosed lines j i := by
    rw [enclosed_succ]
    exact and_iff_left fun _ g _ => hi.not_paired g
  unfold LiveAt OpenAt
  rw [hun, hen]
  simp only [Nat.lt_succ_iff]
  rcases Nat.lt_trichotomy j i with hlt | rfl | hgt
  · simp [hlt, Nat.le_of_lt hlt, Nat.ne_of_lt hlt]
  · simp only [Nat.le_refl, true_and, Nat.lt_irrefl, false_and, false_or]
    refine or_congr ⟨(·.1), fun hg => ⟨hg, ?_⟩⟩ ⟨(·.1), fun hs => ⟨hs, ?_, ?_⟩⟩
    · exact fun c hc hp => absurd hp.lt (Nat.lt_asymm hc)
    · exact fun g c _ hc hcj => absurd hc (Nat.lt_asymm hcj)
    · exact fun k hk hkj => absurd hk (Nat.not_lt.2 hkj)
  · simp [Nat.not_le.2 hgt, Nat.not_lt.2 (Nat.le_of_lt hgt), Nat.ne_of_gt hgt]

/-- Of the unclosed groups, a closing bracket leaves those opened before its own. -/
theorem Paired.unclosed_succ_iff {i g j : Nat} (h : Paired lines i g) (hj : j < i) :
    Unclosed lines j (i + 1) ↔ Unclosed lines j i ∧ j < g := by
  rw [unclosed_succ]
  refine and_congr_right fun hun => ⟨fun hno => ?_, fun hlt hp => ?_⟩
  · rcases Nat.lt_trichotomy j g with hlt | rfl | hgt
    · exact hlt
    · exact absurd h hno
    · exact absurd hun (h.inner_closed hgt hj)
  · have := h.unique hp
    omega

/-- Of the sections that no group around them has closed, a closing bracket leaves those before its
opening bracket. -/
theorem Paired.enclosed_succ_iff {i g j : Nat} (h : Paired lines i g) (hj : j < i)
    (hs : SectAt lines j) : Enclosed lines j (i + 1) ↔ Enclosed lines j i ∧ j < g := by
  rw [enclosed_succ]
  refine and_congr_right fun _ => ⟨fun hno => ?_, fun hlt _ g' hg' hp => ?_⟩
  · rcases Nat.lt_trichotomy j g with hlt | rfl | hgt
    · exact hlt
    · exact absurd hs h.groupAt.not_sectAt
    · exact absurd h (hno hj g hgt)
  · have := h.unique hp
    omega

/-- After a closing bracket, the lines before its opening bracket are open that were so before. -/
theorem liveAt_succ_of_paired {j i g : Nat} (h : Paired lines i g) :
    LiveAt lines j (i + 1) ↔ LiveAt lines j i ∧ j < g := by
  rcases Nat.lt_trichotomy j i with hlt | rfl | hgt
  · have hsh : (∀ k, j < k → k < i + 1 → Shielded lines j k) ↔
        ∀ k, j < k → k < i → Shielded lines j k := by
      rw [forall_between_succ]
      exact and_iff_left fun _ hi => absurd hi h.closesAt.not_itemAt
    unfold LiveAt
    rw [hsh, h.unclosed_succ_iff hlt, and_assoc, or_and_right]
    refine and_congr (iff_of_true (Nat.lt_succ_of_lt hlt) hlt) (or_congr Iff.rfl ?_)
    rw [and_assoc]
    refine and_congr_right fun hs => ?_
    rw [h.enclosed_succ_iff hlt hs, and_right_comm]
  · refine iff_of_false (fun hl => ?_) fun hl => Nat.lt_irrefl j hl.1.1
    exact h.closesAt.not_itemAt (hl.groupAt_or_sectAt.elim (·.itemAt) (·.itemAt))
  · exact iff_of_false (fun hl => by have := hl.1; omega) fun hl => by have := hl.1.1; omega

end Wireframe.Source
