import Wireframe.Json.Parse
import Wireframe.Proofs.Json.Token

/-! Parsing the tokens of a value. The depth of a value is the number of lists and
objects that are open at once in it (`Json.depth`). The machine takes in the tokens of
a value exactly when the containers around it and its depth together stay within the
limit (`run?_tokens`), so a value is read from each of its spellings up to that depth
and refused beyond it (`parse?_of_written`). -/

namespace Wireframe.Json

/-! ### Depth -/

mutual

/-- How many containers are open at once in the value. -/
def depth : Json → Nat
  | arr js => depthItems js + 1
  | obj ms => depthMembers ms + 1
  | _ => 0

def depthItems : List Json → Nat
  | [] => 0
  | j :: js => max (depth j) (depthItems js)

def depthMembers : List (Text × Json) → Nat
  | [] => 0
  | (_, j) :: ms => max (depth j) (depthMembers ms)

end

namespace State

/-! ### The machine -/

theorem run?_nil (s : State) : run? s [] = some s := rfl

theorem run?_cons (s : State) (token : Token) (ts : List Token) :
    run? s (token :: ts) = (next? s token).bind (run? · ts) := by
  rw [run?, List.foldlM_cons]
  rfl

theorem run?_append (s : State) (ts us : List Token) :
    run? s (ts ++ us) = (run? s ts).bind (run? · us) := by
  rw [run?, List.foldlM_append]
  rfl

/-- A list that waits for its first item takes in a value as one that waits for any item does. -/
theorem run?_firstItem (frames : List Frame) (j : Json) (us : List Token) :
    run? (firstItem frames) (j.tokens ++ us) =
      run? (value (.items [] :: frames)) (j.tokens ++ us) := by
  have hfirst : ∃ token ts, j.tokens = token :: ts ∧ token ≠ .closeArr := by
    cases j with
    | arr js => cases js <;> exact ⟨_, _, rfl, by simp⟩
    | obj ms =>
      cases ms with
      | nil => exact ⟨_, _, rfl, by simp⟩
      | cons m ms => exact ⟨_, _, rfl, by simp⟩
    | _ => exact ⟨_, _, rfl, by simp⟩
  obtain ⟨token, ts, ht, hne⟩ := hfirst
  have hn : next? (firstItem frames) token = next? (value (.items [] :: frames)) token := by
    cases token <;> first | rfl | exact absurd rfl hne
  rw [ht, List.cons_append, run?_cons, run?_cons, hn]

theorem run?_openArr {frames : List Frame} (ts : List Token) :
    run? (value frames) (.openArr :: ts) =
      if frames.length < maxDepth then run? (firstItem frames) ts else none := by
  rw [run?_cons]
  simp only [next?, begin?]
  split <;> rfl

theorem run?_openObj {frames : List Frame} (ts : List Token) :
    run? (value frames) (.openObj :: ts) =
      if frames.length < maxDepth then run? (key frames []) ts else none := by
  rw [run?_cons]
  simp only [next?, begin?]
  split <;> rfl

theorem run?_key (frames : List Frame) (before : List (Text × Json)) (k : Text) (ts : List Token) :
    run? (key frames before) (.str k :: .colon :: ts) =
      run? (value (.members before k :: frames)) ts := by
  cases before <;> rfl

/-! ### Values -/

/-- Two bounds that have to hold are one bound on the maximum. -/
theorem bind_if_le {frames : List Frame} {d d' : Nat} {s : State} {x : Option State}
    {f : State → Option State} (hf : f s = if frames.length + d' ≤ maxDepth then x else none) :
    (if frames.length + d ≤ maxDepth then some s else none).bind f =
      if frames.length + max d d' ≤ maxDepth then x else none := by
  by_cases hd : frames.length + d ≤ maxDepth
  · rw [if_pos hd, Option.bind_some, hf]
    congr 1
    rw [eq_iff_iff]
    omega
  · rw [if_neg hd, if_neg (by omega), Option.bind_none]

mutual

/-- The machine takes in the tokens of a value exactly if they do not nest too deep. -/
theorem run?_tokens (frames : List Frame) (hle : frames.length ≤ maxDepth) (j : Json) :
    run? (value frames) j.tokens =
      if frames.length + j.depth ≤ maxDepth then some (after frames j) else none := by
  cases j with
  | null => exact (if_pos hle).symm
  | bool b => exact (if_pos hle).symm
  | num n => exact (if_pos hle).symm
  | str t => exact (if_pos hle).symm
  | arr js =>
    cases js with
    | nil =>
      rw [tokens, run?_openArr]
      rfl
    | cons j js =>
      rw [tokens, run?_openArr, run?_firstItem]
      by_cases hlt : frames.length < maxDepth
      · rw [if_pos hlt, run?_append, run?_tokens (.items [] :: frames) hlt j,
          bind_if_le (run?_moreItems frames hlt [] j js), depth, depthItems, List.length_cons]
        congr 1
        rw [eq_iff_iff]
        omega
      · rw [if_neg hlt, if_neg (by rw [depth]; omega)]
  | obj ms =>
    cases ms with
    | nil =>
      rw [tokens, run?_openObj]
      rfl
    | cons m ms =>
      obtain ⟨k, j⟩ := m
      rw [tokens, run?_openObj, run?_key]
      by_cases hlt : frames.length < maxDepth
      · rw [if_pos hlt, run?_append, run?_tokens (.members [] k :: frames) hlt j,
          bind_if_le (run?_moreMembers frames hlt [] k j ms), depth, depthMembers, List.length_cons]
        congr 1
        rw [eq_iff_iff]
        omega
      · rw [if_neg hlt, if_neg (by rw [depth]; omega)]

/-- The items after a value, up to the end of their list. -/
theorem run?_moreItems (frames : List Frame) (hlt : frames.length < maxDepth) (before : List Json)
    (v : Json) (js : List Json) :
    run? (after (.items before :: frames) v) (moreItems js ++ [.closeArr]) =
      if (Frame.items before :: frames).length + depthItems js ≤ maxDepth then
        some (after frames (.arr (before.reverse ++ v :: js))) else none := by
  cases js with
  | nil =>
    have hle : (Frame.items before :: frames).length + depthItems [] ≤ maxDepth := hlt
    rw [if_pos hle]
    simp [moreItems, run?_cons, next?, run?_nil]
  | cons j js =>
    have hc : next? (after (.items before :: frames) v) .comma =
        some (value (.items (v :: before) :: frames)) := rfl
    rw [moreItems, List.cons_append, run?_cons, hc, Option.bind_some, List.append_assoc,
      run?_append, run?_tokens (.items (v :: before) :: frames) hlt j,
      bind_if_le (run?_moreItems frames hlt (v :: before) j js), depthItems]
    simp

/-- The members after a value, up to the end of their object. -/
theorem run?_moreMembers (frames : List Frame) (hlt : frames.length < maxDepth)
    (before : List (Text × Json)) (k : Text) (v : Json) (ms : List (Text × Json)) :
    run? (after (.members before k :: frames) v) (moreMembers ms ++ [.closeObj]) =
      if (Frame.members before k :: frames).length + depthMembers ms ≤ maxDepth then
        some (after frames (.obj (before.reverse ++ (k, v) :: ms))) else none := by
  cases ms with
  | nil =>
    have hle : (Frame.members before k :: frames).length + depthMembers [] ≤ maxDepth := hlt
    rw [if_pos hle]
    simp [moreMembers, run?_cons, next?, run?_nil]
  | cons m ms =>
    obtain ⟨k', j⟩ := m
    have hc : next? (after (.members before k :: frames) v) .comma =
        some (key frames ((k, v) :: before)) := rfl
    rw [moreMembers, List.cons_append, run?_cons, hc, Option.bind_some, List.cons_append,
      List.cons_append, run?_key, List.append_assoc, run?_append,
      run?_tokens (.members ((k, v) :: before) k' :: frames) hlt j,
      bind_if_le (run?_moreMembers frames hlt ((k, v) :: before) k' j ms), depthMembers]
    simp

end

end State

/-- A value is read from each of its spellings, unless it nests too deep. -/
theorem parse?_of_written {j : Json} {t : Text} (h : Written j.tokens t) :
    parse? t = if j.depth ≤ maxDepth then some j else none := by
  have hr := State.run?_tokens [] (Nat.zero_le _) j
  rw [List.length_nil, Nat.zero_add] at hr
  rw [parse?, tokens?_of_written_tokens h, Option.bind_some, hr]
  split_ifs <;> rfl

/-- A printed value is read back, unless it nests too deep. -/
theorem parse?_print {j : Json} (h : j.Readable) :
    parse? j.print = if j.depth ≤ maxDepth then some j else none :=
  parse?_of_written (written_printAt 0 j h)

end Wireframe.Json
