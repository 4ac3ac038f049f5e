import Mathlib.Data.List.TakeWhile
import Wireframe.Text.Basic

/-! Runs of characters of one class. A run that is followed by no character of its class is
what is taken from the start of a text (`takeWhile_append`), so it is told from what
follows it (`append_inj_of_ends`). -/

namespace Wireframe.Text

/-- The text does not start with a character of a class. -/
def Ends (p : Char → Bool) (t : Text) : Prop := ∀ c ∈ t.head?, p c = false

variable {p : Char → Bool}

theorem ends_cons {c : Char} (hc : p c = false) (t : Text) : Ends p (c :: t) := fun _ hd =>
  Option.some.inj hd ▸ hc

theorem ends_of_notMem {c : Char} {t : Text} (h : c ∉ t) : Ends (· = c) t := fun _ hd =>
  decide_eq_false fun he => h (he ▸ List.mem_of_mem_head? hd)

theorem ends_append_cons {s : Text} {c : Char} (hs : Ends p s) (hc : p c = false) (t : Text) :
    Ends p (s ++ c :: t) := by
  cases s with
  | nil => exact ends_cons hc t
  | cons d s => exact ends_cons (hs d rfl) (s ++ c :: t)

theorem ends_dropWhile (p : Char → Bool) (t : Text) : Ends p (t.dropWhile p) := by
  intro c hc
  have h := List.head?_dropWhile_not p t
  rw [Option.mem_def.1 hc] at h
  exact h

theorem Ends.mono {q : Char → Bool} {t : Text} (h : Ends q t)
    (hpq : ∀ c, p c = true → q c = true) : Ends p t := fun c hc =>
  Bool.eq_false_iff.2 fun hp => absurd (hpq c hp) (by simp [h c hc])

theorem Ends.of_append {s t : Text} (h : Ends p (s ++ t)) : Ends p s := by
  intro c hc
  refine h c ?_
  rw [List.head?_append, Option.mem_def.1 hc]
  rfl

/-- A run of characters other than `c`. -/
theorem forall_ne_iff {c : Char} {t : Text} : (∀ d ∈ t, decide (d ≠ c) = true) ↔ c ∉ t :=
  ⟨fun h hc => absurd (h c hc) (by simp), fun h _ hd => decide_eq_true fun he => h (he ▸ hd)⟩

theorem takeWhile_append {run rest : Text} (hr : ∀ c ∈ run, p c = true) (he : Ends p rest) :
    (run ++ rest).takeWhile p = run := by
  rw [List.takeWhile_append_of_pos hr]
  cases rest with
  | nil => simp
  | cons c rest =>
    have hc : p c = false := he c rfl
    simp [hc]

theorem dropWhile_append {run rest : Text} (hr : ∀ c ∈ run, p c = true) (he : Ends p rest) :
    (run ++ rest).dropWhile p = rest := by
  rw [List.dropWhile_append_of_pos hr]
  cases rest with
  | nil => rfl
  | cons c rest =>
    have hc : p c = false := he c rfl
    simp [hc]

theorem takeWhile_ne_append {c : Char} {s : Text} (hs : c ∉ s) (t : Text) :
    (s ++ c :: t).takeWhile (· ≠ c) = s :=
  takeWhile_append (forall_ne_iff.2 hs) (ends_cons (by simp) t)

theorem dropWhile_ne_append {c : Char} {s : Text} (hs : c ∉ s) (t : Text) :
    (s ++ c :: t).dropWhile (· ≠ c) = c :: t :=
  dropWhile_append (forall_ne_iff.2 hs) (ends_cons (by simp) t)

theorem afterRun?_append {run rest : Text} (hne : run ≠ []) (hr : ∀ c ∈ run, p c = true)
    (he : Ends p rest) : afterRun? p (run ++ rest) = some rest := by
  obtain ⟨c, run, rfl⟩ := List.exists_cons_of_ne_nil hne
  obtain ⟨hc, hr⟩ := List.forall_mem_cons.1 hr
  rw [List.cons_append, afterRun?, if_pos hc, dropWhile_append hr he]

/-- A run at the start of a text, and what follows it. -/
theorem exists_of_afterRun? {t rest : Text} (h : afterRun? p t = some rest) :
    ∃ run, (∀ c ∈ run, p c = true) ∧ t = run ++ rest := by
  cases t with
  | nil => cases h
  | cons c t =>
    rw [afterRun?] at h
    split at h
    · next hc =>
      cases h
      refine ⟨c :: t.takeWhile p, ?_, by rw [List.cons_append, List.takeWhile_append_dropWhile]⟩
      exact List.forall_mem_cons.2 ⟨hc, List.all_eq_true.1 List.all_takeWhile⟩
    · cases h

theorem afterRun?_of_ends {t : Text} (h : Ends p t) : afterRun? p t = none := by
  cases t with
  | nil => rfl
  | cons c t =>
    have hc : p c = false := h c rfl
    rw [afterRun?, if_neg (by simp [hc])]

/-- A text that does not start with `c` starts with no text that does. -/
theorem after?_of_ends {c : Char} {t : Text} (h : Ends (· = c) t) (more : Text) :
    after? (c :: more) t = none := by
  cases t with
  | nil => rfl
  | cons d t =>
    have hd : d ≠ c := of_decide_eq_false (h d rfl)
    rw [after?, if_neg (Ne.symm hd)]

/-- Two runs of a class are the same if they are with what follows them. -/
theorem append_inj_of_ends {s t u v : Text} (hs : ∀ c ∈ s, p c = true) (ht : ∀ c ∈ t, p c = true)
    (hu : Ends p u) (hv : Ends p v) (h : s ++ u = t ++ v) : s = t ∧ u = v := by
  have hst : s = t := by rw [← takeWhile_append hs hu, h, takeWhile_append ht hv]
  subst hst
  exact ⟨rfl, List.append_cancel_left h⟩

/-- A part of a text in which there is no `c` ends before the first `c` of the text. -/
theorem exists_append_of_append_eq {c : Char} {s t before after : Text} (hs : c ∉ s)
    (h : s ++ t = before ++ c :: after) : ∃ more, before = s ++ more ∧ t = more ++ c :: after := by
  rcases List.append_eq_append_iff.1 h with ⟨more, hbefore, ht⟩ | ⟨more, hmore, hafter⟩
  · exact ⟨more, hbefore, ht⟩
  · cases more with
    | nil => exact ⟨[], by simpa using hmore.symm, hafter.symm⟩
    | cons d more =>
      obtain ⟨rfl, -⟩ := List.cons.inj hafter
      exact absurd (by simp [hmore]) hs

/-- The part of a text before one in which there is no `c` goes past each `c` of the text. -/
theorem exists_cons_of_append_eq {c : Char} {s t before after : Text} (ht : c ∉ t)
    (h : s ++ t = before ++ c :: after) : ∃ more, s = before ++ c :: more ∧ after = more ++ t := by
  rcases List.append_eq_append_iff.1 h with ⟨more, -, rfl⟩ | ⟨more, rfl, hafter⟩
  · exact absurd (List.mem_append_right more List.mem_cons_self) ht
  · cases more with
    | nil =>
      obtain rfl : c :: after = t := hafter
      exact absurd List.mem_cons_self ht
    | cons d more =>
      obtain ⟨rfl, rfl⟩ := List.cons.inj hafter
      exact ⟨more, rfl, rfl⟩

/-- What follows a colon, if none stands in the first part of a text, is in the second. -/
theorem suffix_of_append_eq {c : Char} {s t before after : Text} (hs : c ∉ s)
    (h : s ++ t = before ++ c :: after) : c :: after <:+ t := by
  obtain ⟨more, -, ht⟩ := exists_append_of_append_eq hs h
  exact ⟨more, ht.symm⟩

end Wireframe.Text
