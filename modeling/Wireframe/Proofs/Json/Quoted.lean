import Wireframe.Json.Quoted

/-! Strings are read from each of their spellings. A character may stand for itself or be escaped
in one of several ways (`CharSpelled`). No spelling of a character holds a quote outside an escape,
so the closing quote of a string is the first one outside an escape
(`TextSpelled.upToQuote?`), and what stands before it is unescaped as the text it spells
(`TextSpelled.unescape?`). What is written for a text is one of its spellings
(`textSpelled_escape`). -/

namespace Wireframe.Json

/-! ### Spellings -/

/-- A hexadecimal digit of a value, small or capital. -/
def HexSpelled (n : Nat) (c : Char) : Prop :=
  n < 16 ∧ (c = Nat.digitChar n ∨ c = (Nat.digitChar n).toUpper)

instance (n : Nat) (c : Char) : Decidable (HexSpelled n c) :=
  inferInstanceAs (Decidable (n < 16 ∧ (c = Nat.digitChar n ∨ c = (Nat.digitChar n).toUpper)))

/-- An escape by number: four hexadecimal digits, the highest first. -/
inductive UnitSpelled : Nat → Text → Prop
  | digits {i j k l : Nat} {a b c d : Char} (ha : HexSpelled i a) (hb : HexSpelled j b)
      (hc : HexSpelled k c) (hd : HexSpelled l d) :
      UnitSpelled (4096 * i + 256 * j + 16 * k + l) ['\\', 'u', a, b, c, d]

/-- The escapes of two characters: what follows the backslash, and what is meant. -/
def shortEscapes : List (Char × Char) :=
  [('"', '"'), ('\\', '\\'), ('/', '/'), ('b', '\x08'), ('f', '\x0c'), ('n', '\n'), ('r', '\r'),
    ('t', '\t')]

/-- The spellings of a character in a string: itself, a short escape, its number, or the numbers of
the two halves of its surrogate pair. -/
inductive CharSpelled (c : Char) : Text → Prop
  | raw (hq : c ≠ '"') (hb : c ≠ '\\') (hc : 0x20 ≤ c.toNat) : CharSpelled c [c]
  | short {e : Char} (he : (e, c) ∈ shortEscapes) : CharSpelled c ['\\', e]
  | unit {w : Text} (hw : UnitSpelled c.toNat w) : CharSpelled c w
  | pair {high low : Nat} {v w : Text} (hh : high < 0x400) (hl : low < 0x400)
      (hc : c.toNat = 0x10000 + 0x400 * high + low) (hv : UnitSpelled (0xD800 + high) v)
      (hw : UnitSpelled (0xDC00 + low) w) : CharSpelled c (v ++ w)

/-- The spellings of a text between quotes. -/
inductive TextSpelled : Text → Text → Prop
  | nil : TextSpelled [] []
  | cons {c : Char} {t v w : Text} (hc : CharSpelled c v) (ht : TextSpelled t w) :
      TextSpelled (c :: t) (v ++ w)

/-! ### Escapes -/

theorem HexSpelled.facts {n : Nat} {c : Char} (h : HexSpelled n c) :
    c ≠ '"' ∧ c ≠ '\\' ∧ hexValue? c = some n := by
  have hlower : ∀ k < 16, Nat.digitChar k ≠ '"' ∧ Nat.digitChar k ≠ '\\' ∧
      hexValue? (Nat.digitChar k) = some k := by decide
  have hupper : ∀ k < 16, (Nat.digitChar k).toUpper ≠ '"' ∧ (Nat.digitChar k).toUpper ≠ '\\' ∧
      hexValue? (Nat.digitChar k).toUpper = some k := by decide
  obtain ⟨hn, rfl | rfl⟩ := h
  · exact hlower n hn
  · exact hupper n hn

theorem shortEscapes_facts {e c : Char} (h : (e, c) ∈ shortEscapes) :
    e ≠ 'u' ∧ shortEscape? e = some c := by
  have hall : ∀ p ∈ shortEscapes, p.1 ≠ 'u' ∧ shortEscape? p.1 = some p.2 := by decide
  exact hall _ h

theorem symbolOf_toNat (c : Char) : symbolOf c.toNat = .char c := by
  have hv : c.toNat < 0xD800 ∨ 0xDFFF < c.toNat ∧ c.toNat < 0x110000 := c.valid
  rw [symbolOf, if_neg (by omega), Char.ofNat_toNat]

theorem pair?_halves {c : Char} {high low : Nat} (hh : high < 0x400) (hl : low < 0x400)
    (hc : c.toNat = 0x10000 + 0x400 * high + low) :
    pair? (0xD800 + high) (0xDC00 + low) = some c := by
  have hn : 0x10000 + 0x400 * (0xD800 + high - 0xD800) + (0xDC00 + low - 0xDC00) = c.toNat := by
    omega
  rw [pair?, if_pos (by omega), hn, Char.ofNat_toNat]

/-! ### The closing quote -/

theorem upToQuote?_cons_of_ne {c : Char} (hq : c ≠ '"') (hb : c ≠ '\\') (t : Text) :
    upToQuote? (c :: t) = (upToQuote? t).map (c :: ·) := by
  rw [upToQuote?]
  · exact hq
  · rintro _ _ rfl
    exact absurd rfl hb

theorem UnitSpelled.upToQuote? {n : Nat} {w : Text} (h : UnitSpelled n w) (t : Text) :
    upToQuote? (w ++ t) = (upToQuote? t).map (w ++ ·) := by
  cases h with
  | @digits _ _ _ _ a b c d ha hb hc hd =>
    change ((Json.upToQuote? (a :: b :: c :: d :: t)).map ('\\' :: 'u' :: ·)) = _
    rw [upToQuote?_cons_of_ne ha.facts.1 ha.facts.2.1,
      upToQuote?_cons_of_ne hb.facts.1 hb.facts.2.1, upToQuote?_cons_of_ne hc.facts.1 hc.facts.2.1,
      upToQuote?_cons_of_ne hd.facts.1 hd.facts.2.1]
    simp only [Option.map_map]
    rfl

theorem CharSpelled.upToQuote? {c : Char} {w : Text} (h : CharSpelled c w) (t : Text) :
    upToQuote? (w ++ t) = (upToQuote? t).map (w ++ ·) := by
  cases h with
  | raw hq hb _ => exact upToQuote?_cons_of_ne hq hb t
  | short _ => rfl
  | unit hw => exact hw.upToQuote? t
  | pair _ _ _ hv hw =>
    rw [List.append_assoc, hv.upToQuote?, hw.upToQuote?, Option.map_map]
    congr 1
    funext u
    simp

theorem TextSpelled.upToQuote? {t w : Text} (h : TextSpelled t w) (rest : Text) :
    upToQuote? (w ++ '"' :: rest) = some w := by
  induction h with
  | nil => rfl
  | cons hc _ ih => rw [List.append_assoc, hc.upToQuote?, ih, Option.map_some]

/-! ### Unescaping -/

theorem UnitSpelled.symbols? {n : Nat} {w : Text} (h : UnitSpelled n w) (t : Text) :
    symbols? (w ++ t) = (symbols? t).map (symbolOf n :: ·) := by
  cases h with
  | @digits i j k l a b c d ha hb hc hd =>
    have hn : hexValues? a b c d = some (4096 * i + 256 * j + 16 * k + l) := by
      simp only [hexValues?, ha.facts.2.2, hb.facts.2.2, hc.facts.2.2, hd.facts.2.2,
        Option.bind_some, Option.map_some]
    change ((hexValues? a b c d).bind fun n => (Json.symbols? t).map (symbolOf n :: ·)) = _
    rw [hn, Option.bind_some]

theorem symbols?_cons_of_raw {c : Char} (hb : c ≠ '\\') (hc : 0x20 ≤ c.toNat) (t : Text) :
    symbols? (c :: t) = (symbols? t).map (.char c :: ·) := by
  rw [symbols?]
  · rw [if_neg (by simp [hb]; omega)]
  · rintro _ _ _ _ _ rfl
    exact absurd rfl hb
  · rintro _ _ rfl
    exact absurd rfl hb

theorem symbols?_short {e c : Char} (hu : e ≠ 'u') (he : shortEscape? e = some c) (t : Text) :
    symbols? ('\\' :: e :: t) = (symbols? t).map (.char c :: ·) := by
  rw [symbols?]
  · rw [he]
    rfl
  · rintro _ _ _ _ _ rfl
    exact absurd rfl hu

/-- A spelled character is read as one symbol or as two halves, which are joined to it. -/
theorem CharSpelled.exists_symbols {c : Char} {w : Text} (h : CharSpelled c w) :
    ∃ ps, (∀ t, symbols? (w ++ t) = (symbols? t).map (ps ++ ·)) ∧
      ∀ qs, join? (ps ++ qs) = (join? qs).map (c :: ·) := by
  cases h with
  | raw _ hb hc => exact ⟨[.char c], symbols?_cons_of_raw hb hc, fun _ => rfl⟩
  | short he =>
    obtain ⟨hu, hs⟩ := shortEscapes_facts he
    exact ⟨[.char c], symbols?_short hu hs, fun _ => rfl⟩
  | unit hw => exact ⟨[.char c], symbolOf_toNat c ▸ hw.symbols?, fun _ => rfl⟩
  | @pair high low _ _ hh hl hc hv hw =>
    refine ⟨[.half (0xD800 + high), .half (0xDC00 + low)], fun t => ?_, fun qs => ?_⟩
    · rw [List.append_assoc, hv.symbols?, hw.symbols?, symbolOf, symbolOf, if_pos (by omega),
        if_pos (by omega), Option.map_map]
      rfl
    · change ((pair? (0xD800 + high) (0xDC00 + low)).bind fun c => (join? qs).map (c :: ·)) = _
      rw [pair?_halves hh hl hc, Option.bind_some]

theorem TextSpelled.exists_symbols {t w : Text} (h : TextSpelled t w) :
    ∃ ps, symbols? w = some ps ∧ join? ps = some t := by
  induction h with
  | nil => exact ⟨[], rfl, rfl⟩
  | cons hc _ ih =>
    obtain ⟨ps, hs, hj⟩ := hc.exists_symbols
    obtain ⟨qs, hqs, hqj⟩ := ih
    exact ⟨ps ++ qs, by rw [hs, hqs, Option.map_some], by rw [hj, hqj, Option.map_some]⟩

theorem TextSpelled.unescape? {t w : Text} (h : TextSpelled t w) : unescape? w = some t := by
  obtain ⟨ps, hs, hj⟩ := h.exists_symbols
  rw [Json.unescape?, hs, Option.bind_some, hj]

/-! ### What is written -/

/-- What is written for a character is one of its spellings. -/
theorem charSpelled_escapeChar (c : Char) : CharSpelled c (escapeChar c) := by
  have hshort : ∀ e d, (e, d) ∈ shortEscapes → c = d → CharSpelled c ['\\', e] := by
    rintro e _ he rfl
    exact .short he
  unfold escapeChar
  split
  · next h => exact hshort '"' _ (by decide) h
  split
  · next h => exact hshort '\\' _ (by decide) h
  split
  · next h => exact hshort 'b' _ (by decide) h
  split
  · next h => exact hshort 't' _ (by decide) h
  split
  · next h => exact hshort 'n' _ (by decide) h
  split
  · next h => exact hshort 'f' _ (by decide) h
  split
  · next h => exact hshort 'r' _ (by decide) h
  split
  · next h =>
    have hn : 4096 * 0 + 256 * 0 + 16 * (c.toNat / 16) + c.toNat % 16 = c.toNat := by omega
    have hw : UnitSpelled (4096 * 0 + 256 * 0 + 16 * (c.toNat / 16) + c.toNat % 16)
        ['\\', 'u', '0', '0', hexDigit (c.toNat / 16), hexDigit (c.toNat % 16)] :=
      .digits (by decide) (by decide) ⟨by omega, .inl rfl⟩ ⟨by omega, .inl rfl⟩
    rw [hn] at hw
    exact .unit hw
  · next hq hb _ _ _ _ _ h => exact .raw hq hb (by omega)

theorem textSpelled_escape (t : Text) : TextSpelled t (t.flatMap escapeChar) := by
  induction t with
  | nil => exact .nil
  | cons c t ih => exact .cons (charSpelled_escapeChar c) ih

end Wireframe.Json
