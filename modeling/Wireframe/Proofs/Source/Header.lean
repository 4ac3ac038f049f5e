import Wireframe.Proofs.Text.Numeral
import Wireframe.Proofs.Text.Trim
import Wireframe.Source.Line

/-! The grammar of section headers. A header has a ratio exactly when what follows its
equals sign is a word, white space and two positive numbers below 2^32 with a slash
between them (`Ratioed`), and no text has this form in two ways, since it is what
`readRatioed?` reads. -/

namespace Wireframe

/-- One or more ASCII digits that write a positive number of one machine word. -/
structure PositiveNumeral (t : Text) (n : UInt32) : Prop where
  ne_nil : t ≠ []
  digits : ∀ c ∈ t, c.isDigit = true
  value_eq : Text.value t = n.toNat
  pos : 0 < n

theorem positiveNumeral_ofNat {n : UInt32} (h : 0 < n) :
    PositiveNumeral (Text.ofNat n.toNat) n :=
  ⟨Text.ofNat_ne_nil _, Text.isDigit_of_mem_ofNat, Text.value_ofNat _, h⟩

theorem readPositive?_eq_some_iff {t : Text} {n : UInt32} :
    readPositive? t = some n ↔ PositiveNumeral t n := by
  have hsize : UInt32.size = 2 ^ 32 := rfl
  simp only [readPositive?, Option.bind_eq_some_iff]
  constructor
  · rintro ⟨k, hk, h⟩
    obtain ⟨hne, hd, rfl⟩ := Text.readNat?_eq_some_iff.1 hk
    split at h
    · next hv =>
      have hn : n.toNat = Text.value t := by
        rw [← Option.some.inj h]
        exact UInt32.toNat_ofNat_of_lt' hv.2
      refine ⟨hne, hd, hn.symm, ?_⟩
      rw [UInt32.lt_iff_toNat_lt, hn]
      exact hv.1
    · contradiction
  · intro h
    refine ⟨_, Text.readNat?_eq_some_iff.2 ⟨h.ne_nil, h.digits, rfl⟩, ?_⟩
    have hp := UInt32.lt_iff_toNat_lt.1 h.pos
    have hlt := n.toNat_lt
    rw [h.value_eq, if_pos ⟨hp, by omega⟩, UInt32.ofNat_toNat]

theorem digit_facts {c : Char} (h : c.isDigit = true) : blank c = false ∧ c ≠ '/' := by
  refine ⟨not_blank_of_isAlphanum (by simp [Char.isAlphanum, h]), ?_⟩
  rintro rfl
  exact absurd h (by decide)

/-- The texts `n/d` of a ratio. -/
theorem Ratio.read?_eq_some_iff {t : Text} {r : Ratio} :
    Ratio.read? t = some r ↔
      ∃ n d, t = n ++ '/' :: d ∧ PositiveNumeral n r.n ∧ PositiveNumeral d r.d := by
  simp only [Ratio.read?, Option.bind_eq_some_iff, Option.map_eq_some_iff,
    Text.after?_eq_some_iff, readPositive?_eq_some_iff]
  constructor
  · rintro ⟨below, hb, n, hn, d, hd, rfl⟩
    refine ⟨_, below, ?_, hn, hd⟩
    calc t = t.takeWhile (· ≠ '/') ++ t.dropWhile (· ≠ '/') := by
            rw [List.takeWhile_append_dropWhile]
        _ = t.takeWhile (· ≠ '/') ++ '/' :: below := by rw [hb, List.singleton_append]
  · rintro ⟨n, d, rfl, hn, hd⟩
    have hns : ∀ c ∈ n, decide (c ≠ '/') = true :=
      fun c hc => decide_eq_true (digit_facts (hn.digits c hc)).2
    refine ⟨d, ?_, r.n, ?_, r.d, hd, rfl⟩
    · rw [List.dropWhile_append_of_pos hns]
      rfl
    · rw [List.takeWhile_append_of_pos hns]
      simpa using hn

namespace Source

/-- A word, white space and a ratio. -/
def Ratioed (t name : Text) (r : Ratio) : Prop :=
  ∃ blanks n d, t = name ++ blanks ++ n ++ '/' :: d ∧
    name ≠ [] ∧ (∀ c ∈ name, blank c = false) ∧ blanks ≠ [] ∧ (∀ c ∈ blanks, blank c = true) ∧
      PositiveNumeral n r.n ∧ PositiveNumeral d r.d

theorem ratioed_of_readRatioed? {t name : Text} {r : Ratio}
    (ht : ∀ c ∈ t.head?, blank c = false) (h : readRatioed? t = some (name, r)) :
    Ratioed t name r := by
  simp only [readRatioed?, Option.bind_eq_some_iff, Option.map_eq_some_iff, Prod.mk.injEq] at h
  obtain ⟨ratio, ha, _, hr, rfl, rfl⟩ := h
  obtain ⟨n, d, rfl, hn, hd⟩ := Ratio.read?_eq_some_iff.1 hr
  cases hb : t.dropWhile (! blank ·) with
  | nil => simp [hb, Text.afterBlanks?, Text.afterRun?] at ha
  | cons b more =>
    have hbb : blank b = true := by
      have := List.head?_dropWhile_not (! blank ·) t
      rw [hb] at this
      simpa using this
    simp only [hb, Text.afterBlanks?, Text.afterRun?, hbb, if_true, Option.some.injEq] at ha
    refine ⟨b :: more.takeWhile blank, n, d, ?_, ?_, ?_, by simp, ?_, hn, hd⟩
    · calc t = t.takeWhile (! blank ·) ++ b :: more := by
            rw [← hb, List.takeWhile_append_dropWhile]
        _ = t.takeWhile (! blank ·) ++ b :: (more.takeWhile blank ++ (n ++ '/' :: d)) := by
            rw [← ha, List.takeWhile_append_dropWhile]
        _ = _ := by simp
    · -- the text starts with a character that is not blank, so its first word is not empty
      cases t with
      | nil => simp at hb
      | cons c t =>
        have hc : blank c = false := ht c rfl
        simp [hc]
    · intro c hc
      simpa using List.all_eq_true.1 List.all_takeWhile c hc
    · intro c hc
      rcases List.mem_cons.1 hc with rfl | hc
      · exact hbb
      · exact List.all_eq_true.1 List.all_takeWhile c hc

theorem readRatioed?_of_ratioed {t name : Text} {r : Ratio} (h : Ratioed t name r) :
    readRatioed? t = some (name, r) := by
  obtain ⟨blanks, n, d, rfl, -, hname, hne, hblanks, hn, hd⟩ := h
  have hword : ∀ c ∈ name, (! blank c) = true := fun c hc => by simp [hname c hc]
  have hstart : ∀ c ∈ (n ++ '/' :: d).head?, blank c = false := by
    intro c hc
    obtain ⟨c', n', rfl⟩ := List.exists_cons_of_ne_nil hn.ne_nil
    obtain rfl : c' = c := by simpa using hc
    exact (digit_facts (hn.digits c' (by simp))).1
  obtain ⟨b, blanks, rfl⟩ := List.exists_cons_of_ne_nil hne
  have hb : blank b = true := hblanks b (by simp)
  have hmore : ∀ c ∈ blanks, blank c = true := fun c hc => hblanks c (List.mem_cons_of_mem _ hc)
  have hdrop : (name ++ b :: blanks ++ n ++ '/' :: d).dropWhile (! blank ·) =
      b :: (blanks ++ (n ++ '/' :: d)) := by
    rw [List.append_assoc, List.append_assoc, List.dropWhile_append_of_pos hword]
    simp [hb]
  have htake : (name ++ b :: blanks ++ n ++ '/' :: d).takeWhile (! blank ·) = name := by
    rw [List.append_assoc, List.append_assoc, List.takeWhile_append_of_pos hword]
    simp [hb]
  rw [readRatioed?, hdrop, htake, Text.afterBlanks?, Text.afterRun?, if_pos hb,
    List.dropWhile_append_of_pos hmore, Text.dropWhile_blank_of_head? hstart, Option.bind_some,
    Ratio.read?_eq_some_iff.2 ⟨n, d, rfl, hn, hd⟩]
  rfl

theorem readRatioed?_eq_some_iff {t name : Text} {r : Ratio}
    (ht : ∀ c ∈ t.head?, blank c = false) :
    readRatioed? t = some (name, r) ↔ Ratioed t name r :=
  ⟨ratioed_of_readRatioed? ht, readRatioed?_of_ratioed⟩

end Source

end Wireframe
