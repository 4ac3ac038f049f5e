import Mathlib.Data.List.Forall2
import Wireframe.Proofs.Row.Cell
import Wireframe.Proofs.Text.Replace
import Wireframe.Row.Plain

/-! The replacements of marks on a row of cells. What a replacement makes of a cell does not depend
on what follows it if no span of the mark goes past the cell (`Turns`), and then it goes over a row
cell by cell (`foldl_join`). A mark leaves alone all texts that lack one of its characters
(`Guarded`), so most replacements pass a cell by. On a row that starts with no lead and no text area
the marks are all that is replaced (`foldl_steps`). -/

namespace Wireframe.Row

open Text

/-! ### One replacement -/

/-- The replacement goes on behind a space or a pipe as at the start of a text. -/
structure Cellwise (step : Text → Text) : Prop where
  nil : step [] = []
  space : ∀ t, step (' ' :: t) = ' ' :: step t
  pipe : ∀ t, step ('|' :: t) = '|' :: step t

/-- The replacement turns `s` into `t` at the end of a text and before a space. -/
def Turns (step : Text → Text) (s t : Text) : Prop :=
  ∀ rest, Ends (· ≠ ' ') rest → step (s ++ rest) = t ++ step rest

section

variable {step : Text → Text} {s t rest : Text}

theorem ends_space (t : Text) : Ends (· ≠ ' ') (' ' :: t) := ends_cons (by decide) t

theorem Cellwise.ends (h : Cellwise step) (hr : Ends (· ≠ ' ') rest) :
    Ends (· ≠ ' ') (step rest) := by
  cases rest with
  | nil =>
    rw [h.nil]
    exact hr
  | cons c rest =>
    obtain rfl : c = ' ' := by simpa using hr c rfl
    rw [h.space]
    exact ends_space _

theorem Turns.eq (h : Turns step s t) (hs : Cellwise step) : step s = t := by
  have hnil := h [] fun _ hc => absurd hc (by simp)
  rwa [List.append_nil, hs.nil, List.append_nil] at hnil

end

/-! ### Replacements in order -/

/-- The replacements turn `s` into `t` one after another. -/
inductive Passes : List (Text → Text) → Text → Text → Prop
  | nil {s : Text} : Passes [] s s
  | cons {step : Text → Text} {fs : List (Text → Text)} {s t u : Text} (h : Turns step s t)
      (hfs : Passes fs t u) : Passes (step :: fs) s u

section

variable {fs gs : List (Text → Text)} {s t u : Text} {cells forms : List Text}

theorem Passes.append (h : Passes fs s t) (h' : Passes gs t u) : Passes (fs ++ gs) s u := by
  induction h with
  | nil => exact h'
  | cons ht _ ih => exact .cons ht (ih h')

theorem cellwise_foldl (hfs : ∀ f ∈ fs, Cellwise f) :
    Cellwise (fun t => fs.foldl (fun t f => f t) t) := by
  induction fs with
  | nil => exact ⟨rfl, fun _ => rfl, fun _ => rfl⟩
  | cons f fs ih =>
    obtain ⟨hf, hfs⟩ := List.forall_mem_cons.1 hfs
    have ih := ih hfs
    constructor
    · rw [List.foldl_cons, hf.nil]
      exact ih.nil
    · intro t
      rw [List.foldl_cons, hf.space]
      exact ih.space (f t)
    · intro t
      rw [List.foldl_cons, hf.pipe]
      exact ih.pipe (f t)

theorem Passes.turns (hfs : ∀ f ∈ fs, Cellwise f) (h : Passes fs s t) :
    Turns (fun t => fs.foldl (fun t f => f t) t) s t := by
  induction h with
  | nil => exact fun _ _ => rfl
  | @cons f fs s t u ht _ ih =>
    obtain ⟨hf, hfs⟩ := List.forall_mem_cons.1 hfs
    intro rest hr
    simp only [List.foldl_cons]
    rw [ht rest hr]
    exact ih hfs (f rest) (hf.ends hr)

theorem Passes.foldl_eq (hfs : ∀ f ∈ fs, Cellwise f) (h : Passes fs s t) :
    fs.foldl (fun t f => f t) s = t :=
  (h.turns hfs).eq (cellwise_foldl hfs)

/-- The text between two cells of a row. -/
def cellGap : Text := [' ', '|', ' ']

/-- The replacements go over a row cell by cell. -/
theorem foldl_join (hfs : ∀ f ∈ fs, Cellwise f) (h : List.Forall₂ (Passes fs) cells forms) :
    fs.foldl (fun t f => f t) (join cellGap cells) = join cellGap forms := by
  have hcellwise := cellwise_foldl hfs
  induction h with
  | nil => exact hcellwise.nil
  | @cons cell form cells forms hc hcells ih =>
    have hturns := hc.turns hfs
    cases hcells with
    | nil =>
      rw [join_singleton, join_singleton]
      exact hturns.eq hcellwise
    | @cons next nextForm cells forms hn hcells =>
      rw [join_cons_append, join_cons_append, ← ih]
      refine (hturns _ (ends_space _)).trans (congrArg (form ++ ·) ?_)
      exact (hcellwise.space _).trans (congrArg _ ((hcellwise.pipe _).trans
        (congrArg _ (hcellwise.space _))))

end

/-! ### Marks -/

section

variable {m : Mark} {f : Text → Text} {c : Char} {s body rest l u : Text}

/-- A mark whose spans start with neither a space nor a pipe. -/
structure Opened (m : Mark) : Prop where
  ne_nil : m.opening ≠ []
  space : ' ' ∉ m.opening
  pipe : '|' ∉ m.opening

theorem opened_iff : Opened m ↔ m.opening ≠ [] ∧ ' ' ∉ m.opening ∧ '|' ∉ m.opening :=
  ⟨fun h => ⟨h.ne_nil, h.space, h.pipe⟩, fun h => ⟨h.1, h.2.1, h.2.2⟩⟩

instance (m : Mark) : Decidable (Opened m) := decidable_of_iff _ opened_iff.symm

theorem Opened.read?_cons (hm : Opened m) (hc : c ∉ m.opening) (t : Text) :
    m.read? (c :: t) = none := by
  obtain ⟨d, more, ho⟩ := List.exists_cons_of_ne_nil hm.ne_nil
  refine Mark.read?_of_ends ho (ends_cons (decide_eq_false ?_) t)
  rintro rfl
  exact hc (ho ▸ List.mem_cons_self)

theorem cellwise_replace (hm : Opened m) : Cellwise (m.replace f) where
  nil := rfl
  space t := Mark.replace_cons_of_none (hm.read?_cons hm.space t)
  pipe t := Mark.replace_cons_of_none (hm.read?_cons hm.pipe t)

/-- A text without spaces does not go past a cell. -/
theorem prefix_of_prefix_append (hl : ' ' ∉ l) (hr : Ends (· ≠ ' ') rest) (h : l <+: u ++ rest) :
    l <+: u := by
  cases rest with
  | nil => rwa [List.append_nil] at h
  | cons c rest =>
    obtain rfl : c = ' ' := by simpa using hr c rfl
    obtain ⟨more, h⟩ := h
    obtain ⟨more, hu, -⟩ := exists_append_of_append_eq hl h
    exact ⟨more, hu.symm⟩

theorem opening_prefix_of_read? {t : Text} (h : m.read? t = some (body, rest)) :
    m.opening <+: t := by
  rw [Mark.eq_of_read? h, List.append_assoc, List.append_assoc]
  exact List.prefix_append _ _

/-- A mark passes by a text that has fewer of a character than its opening. -/
theorem turns_of_count (hm : Opened m) (h : s.count c < m.opening.count c) :
    Turns (m.replace f) s s := by
  refine fun rest hr => Mark.replace_append_of_none fun u _ hu => ?_
  refine Option.eq_none_iff_forall_ne_some.2 fun (body, more) hread => ?_
  have hopening := prefix_of_prefix_append hm.space hr (opening_prefix_of_read? hread)
  have hle := (hopening.sublist.trans hu.sublist).count_le c
  omega

/-- A mark without a closing passes by a text in which no character of its class follows its
opening. -/
theorem turns_of_not_infix (hm : Opened m) (hclosing : m.closing = []) (hleast : m.least = 1)
    (hspace : m.body ' ' = false) (h : ∀ c, m.body c = true → ¬ m.opening ++ [c] <:+: s) :
    Turns (m.replace f) s s := by
  refine fun rest hr => Mark.replace_append_of_none fun u _ hu => ?_
  refine (Mark.read?_eq_none_iff_of_unclosed hclosing hleast).2 fun c hc hprefix => h c hc ?_
  have hl : ' ' ∉ m.opening ++ [c] := by
    rw [List.mem_append, not_or, List.mem_singleton]
    refine ⟨hm.space, ?_⟩
    rintro rfl
    rw [hspace] at hc
    contradiction
  exact (prefix_of_prefix_append hl hr hprefix).isInfix.trans hu.isInfix

/-- A mark without a closing passes by a text in which the end of its opening stands once, before a
space. -/
theorem turns_of_once {d : Char} {after : Text} (o before : Text) (hm : Opened m)
    (hclosing : m.closing = []) (hleast : m.least = 1) (hspace : m.body ' ' = false)
    (ho : m.opening = o ++ [d]) (hbefore : d ∉ before) (hafter : d ∉ ' ' :: after) :
    Turns (m.replace f) (before ++ d :: ' ' :: after) (before ++ d :: ' ' :: after) := by
  refine turns_of_not_infix hm hclosing hleast hspace fun c hc hinfix => ?_
  obtain ⟨start, stop, he⟩ := hinfix
  have hcut : (start ++ o) ++ d :: (c :: stop) = before ++ d :: (' ' :: after) := by
    simpa [ho] using he
  obtain ⟨-, -, hrest⟩ := (List.append_cons_inj_of_notMem hbefore hafter).1 hcut.symm
  obtain rfl := (List.cons.inj hrest).1
  rw [hspace] at hc
  contradiction

/-- A cell that is a span of a mark whose body is ended by the first character of its closing. -/
theorem turns_of_delimited {q : Char} {more : Text} (hm : Opened m)
    (hbody : m.body = fun c => decide (c ≠ q)) (hclosing : m.closing = q :: more)
    (hleast : m.least ≤ body.length) (hq : q ∉ body) :
    Turns (m.replace f) (m.opening ++ body ++ m.closing) (f body) := fun _ _ =>
  Mark.replace_of_read? hm.ne_nil
    ((Mark.read?_delimited_iff hbody hclosing).2 ⟨hleast, hq, rfl⟩)

/-- A cell that is a span of a mark without a closing. -/
theorem turns_of_unclosed (hm : Opened m) (hclosing : m.closing = []) (hspace : m.body ' ' = false)
    (hleast : m.least ≤ body.length) (hbody : ∀ c ∈ body, m.body c = true) :
    Turns (m.replace f) (m.opening ++ body) (f body) := by
  intro rest hr
  refine Mark.replace_of_read? hm.ne_nil (Mark.read?_eq_some_iff.2 ?_)
  rw [hclosing, List.append_nil, List.nil_append]
  refine ⟨rfl, hleast, hbody, fun c hc => ?_⟩
  obtain rfl : c = ' ' := by simpa using hr c hc
  exact hspace

end

/-! ### The marks of a row -/

/-- A replacement of a mark with this opening that goes over a row cell by cell. -/
structure Guarded (opening : Text) (step : Text → Text) : Prop extends Cellwise step where
  passes : ∀ s c, s.count c < opening.count c → Turns step s s

theorem guarded_replace {m : Mark} (f : Text → Text) (hm : Opened m) :
    Guarded m.opening (m.replace f) where
  toCellwise := cellwise_replace hm
  passes _ _ h := turns_of_count hm h

/-- The replacements of marks but for links, which come last. -/
def markSteps : List (Text → Text) := (steps.drop 3).take 1 ++ (steps.drop 6).take 6

/-- The openings of these marks. -/
def openings : List Text :=
  [badge.opening, field.opening, quotedPrimary.opening, quotedButton.opening, barePrimary.opening,
    bareButton.opening, icon.opening]

theorem guarded_markSteps : List.Forall₂ Guarded openings markSteps :=
  .cons (guarded_replace (m := { badge with least := 0 }) _ (by decide)) <|
    .cons (guarded_replace _ (by decide)) <| .cons (guarded_replace _ (by decide)) <|
    .cons (guarded_replace _ (by decide)) <| .cons (guarded_replace _ (by decide)) <|
    .cons (guarded_replace _ (by decide)) <| .cons (guarded_replace _ (by decide)) .nil

theorem guarded_link : Guarded link.opening (link.replace id) :=
  guarded_replace id (by decide)

theorem turns_link_of_notMem {s : Text} (hs : '_' ∉ s) : Turns (link.replace id) s s :=
  guarded_link.passes s '_' (by rw [List.count_eq_zero_of_not_mem hs]; decide)

section

variable {os : List Text} {fs : List (Text → Text)} {s l lead trail : Text}

theorem cellwise_of_guarded (h : List.Forall₂ Guarded os fs) : ∀ f ∈ fs, Cellwise f := by
  induction h with
  | nil => exact List.forall_mem_nil _
  | cons hf _ ih => exact List.forall_mem_cons.2 ⟨hf.toCellwise, ih⟩

/-- The characters that tell the openings of marks. -/
def markChars : List Char := ['\x60', '^', '"', '!', ':']

/-- Whether a text has too few of one of these characters to hold an opening. -/
def lacks (s opening : Text) : Bool :=
  markChars.any fun c => decide (s.count c < opening.count c)

/-- Text without these characters may stand in between. -/
theorem lacks_enclose (hl : ∀ c ∈ markChars, c ∉ l) :
    lacks (lead ++ l ++ trail) = lacks (lead ++ trail) := by
  have hcount : ∀ c ∈ markChars, (lead ++ l ++ trail).count c = (lead ++ trail).count c := by
    intro c hc
    rw [List.count_append, List.count_append, List.count_eq_zero_of_not_mem (hl c hc), Nat.add_zero,
      List.count_append]
  funext opening
  rw [lacks, lacks, Bool.eq_iff_iff, List.any_eq_true, List.any_eq_true]
  exact exists_congr fun c => and_congr_right fun hc => by rw [hcount c hc]

/-- Replacements pass by a cell that holds none of their openings. -/
theorem passes_of_guarded (h : List.Forall₂ Guarded os fs)
    (hs : os.all (lacks s) = true) : Passes fs s s := by
  induction h with
  | nil => exact .nil
  | cons hf _ ih =>
    rw [List.all_cons, Bool.and_eq_true] at hs
    obtain ⟨c, -, hc⟩ := List.any_eq_true.1 hs.1
    exact .cons (hf.passes s c (of_decide_eq_true hc)) (ih hs.2)

/-- Some of the replacements pass by a cell that holds none of their openings. -/
theorem passes_slice (lead trail : Text) (i n : ℕ) (hl : ∀ c ∈ markChars, c ∉ l)
    (h : ((openings.drop i).take n).all (lacks (lead ++ trail)) = true) :
    Passes ((markSteps.drop i).take n) (lead ++ l ++ trail) (lead ++ l ++ trail) :=
  passes_of_guarded (List.forall₂_take n (List.forall₂_drop i guarded_markSteps))
    (by rwa [lacks_enclose hl])

end

/-! ### Whole rows -/

/-- The characters that the leads of headings and items start with. -/
def isLead (c : Char) : Bool := c = '#' || c = '-' || c = '*' || digit c

variable {t : Text}

theorem isLead_of_digit {c : Char} (h : digit c = true) : isLead c = true := by
  simp [isLead, h]

theorem plainBullet_of_ends (h : Ends isLead t) : plainBullet t = t := by
  cases t with
  | nil => rfl
  | cons c t =>
    have hc := h c rfl
    rw [plainBullet, if_neg]
    rintro (rfl | rfl) <;> exact absurd hc (by decide)

/-- A text that starts with no text area does not start with one after badges are replaced. -/
theorem after?_area_replace {m : Mark} {f : Text → Text} (hm : m.opening ≠ [])
    (hf : ∀ body, ∃ c more, f body = c :: more ∧ c ≠ '^') (h : after? area t = none) :
    after? area (m.replace f t) = none := by
  refine Option.eq_none_iff_forall_ne_some.2 fun rest hrest => ?_
  obtain ⟨u, rfl, hu⟩ := Mark.exists_cons_of_replace hm hf (after?_eq_some_iff.1 hrest)
  obtain ⟨v, rfl, -⟩ := Mark.exists_cons_of_replace hm hf hu
  rw [show '^' :: '^' :: v = area ++ v from rfl, after?_append] at h
  contradiction

theorem plainPrompt_of_after? (h : after? area t = none) : plainPrompt t = t := by
  rw [plainPrompt, h]
  rfl

theorem plainArea_of_after? (h : after? area t = none) : plainArea t = t := by
  refine if_neg ?_
  rintro rfl
  contradiction

theorem foldl_leads (hlead : Ends isLead t) :
    (steps.take 3).foldl (fun t step => step t) t = t := by
  have hhashes : afterHashes? t = none := by
    rw [afterHashes?, afterRun?_of_ends (hlead.mono fun c hc => by simp_all [isLead])]
    rfl
  have hnumber : afterNumber? t = none := by
    rw [afterNumber?, afterRun?_of_ends (hlead.mono fun c hc => isLead_of_digit hc)]
    rfl
  simp only [steps, List.take, List.foldl_cons, List.foldl_nil, hhashes, Option.getD_none,
    plainBullet_of_ends hlead, hnumber]

/-- Replacements that change nothing where they are made may be left out. -/
theorem foldl_of_unchanged {as bs cs : List (Text → Text)} {prompt area last : Text → Text}
    (has : as.foldl (fun t step => step t) t = t)
    (hprompt : prompt (bs.foldl (fun t step => step t) t) = bs.foldl (fun t step => step t) t)
    (harea : area (bs.foldl (fun t step => step t) t) = bs.foldl (fun t step => step t) t) :
    (as ++ (bs ++ prompt :: area :: (cs ++ [last]))).foldl (fun t step => step t) t =
      last ((bs ++ cs).foldl (fun t step => step t) t) := by
  rw [List.foldl_append, has, List.foldl_append, List.foldl_cons, hprompt, List.foldl_cons, harea,
    List.foldl_append, List.foldl_append]
  rfl

/-- On a row that starts with neither a lead nor a text area only marks are replaced. -/
theorem foldl_steps (hlead : Ends isLead t) (harea : after? area t = none) :
    steps.foldl (fun t step => step t) t =
      link.replace id (markSteps.foldl (fun t step => step t) t) := by
  have hbadge : after? area (((steps.drop 3).take 1).foldl (fun t step => step t) t) = none :=
    after?_area_replace (m := { badge with least := 0 }) (List.cons_ne_nil _ _)
      (fun _ => ⟨'(', _, rfl, by decide⟩) harea
  have hsteps : steps = steps.take 3 ++ ((steps.drop 3).take 1 ++
      plainPrompt :: plainArea :: ((steps.drop 6).take 6 ++ [link.replace id])) := rfl
  exact (congrArg (List.foldl (fun t step => step t) t) hsteps).trans
    (foldl_of_unchanged (foldl_leads hlead) (plainPrompt_of_after? hbadge)
      (plainArea_of_after? hbadge))

/-- The plain form of such a row that is no table row. -/
theorem plain_of_unled (hlead : Ends isLead t.trim) (harea : after? area t.trim = none)
    (htable : isTableRow t = false) : plain t = squeeze
      ((link.replace id (markSteps.foldl (fun t step => step t) t.trim)).flatMap
        fun c => if c = '|' then [' '] else [c]) := by
  rw [plain, foldl_steps hlead harea, htable]
  rfl

/-- The plain form of a trimmed row that starts with no lead, no text area and no pipe. -/
theorem plain_of_begins (ht : t.Trimmed) (hlead : Ends isLead t) (harea : after? area t = none)
    (hpipe : Ends (· = '|') t) : plain t = squeeze
      ((link.replace id (markSteps.foldl (fun t step => step t) t)).flatMap
        fun c => if c = '|' then [' '] else [c]) := by
  have htrim := trim_of_trimmed ht
  have htable : isTableRow t = false := by
    refine Bool.eq_false_iff.2 fun h => ?_
    obtain ⟨hhead, -⟩ := isTableRow_iff.1 h
    rw [htrim] at hhead
    exact absurd (hpipe '|' hhead) (by simp)
  have hplain := plain_of_unled (htrim.symm ▸ hlead) (htrim.symm ▸ harea) htable
  rwa [htrim] at hplain

theorem flatMap_of_pipe_notMem (h : '|' ∉ t) :
    (t.flatMap fun c => if c = '|' then [' '] else [c]) = t := by
  induction t with
  | nil => rfl
  | cons c t ih =>
    rw [List.mem_cons, not_or] at h
    rw [List.flatMap_cons, if_neg (Ne.symm h.1), ih h.2, List.singleton_append]

end Wireframe.Row
