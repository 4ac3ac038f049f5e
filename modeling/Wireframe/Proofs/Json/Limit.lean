import Mathlib.Order.Basic
import Wireframe.Proofs.Json.Parse

/-! The limit holds of whatever is parsed. While the tokens of any text are taken in, what is
nested in the containers still open never reaches beyond the limit (`State.Within.next?`),
so no text is read as a value that nests deeper than `maxDepth` (`depth_le_of_parse?`),
whether or not the value was ever printed. -/

namespace Wireframe.Json

/-! ### The deepest of several values -/

theorem depthItems_le_iff {js : List Json} {n : Nat} :
    depthItems js ≤ n ↔ ∀ j ∈ js, j.depth ≤ n := by
  induction js with
  | nil => simp [depthItems]
  | cons j js ih => rw [depthItems, Nat.max_le, ih, List.forall_mem_cons]

theorem depthMembers_le_iff {ms : List (Text × Json)} {n : Nat} :
    depthMembers ms ≤ n ↔ ∀ m ∈ ms, m.2.depth ≤ n := by
  induction ms with
  | nil => simp [depthMembers]
  | cons m ms ih => rw [depthMembers, Nat.max_le, ih, List.forall_mem_cons]

theorem depthItems_reverse (js : List Json) : depthItems js.reverse = depthItems js := by
  apply eq_of_forall_ge_iff
  simp only [depthItems_le_iff, List.mem_reverse, implies_true]

theorem depthMembers_reverse (ms : List (Text × Json)) :
    depthMembers ms.reverse = depthMembers ms := by
  apply eq_of_forall_ge_iff
  simp only [depthMembers_le_iff, List.mem_reverse, implies_true]

/-! ### The containers that are open -/

/-- How many containers are open at once in what a frame holds already. -/
def Frame.depth : Frame → Nat
  | items before => depthItems before
  | members before _ => depthMembers before

/-- No frame holds anything that reaches beyond the limit. -/
def FramesWithin : List Frame → Prop
  | [] => True
  | frame :: frames => frames.length + 1 + frame.depth ≤ maxDepth ∧ FramesWithin frames

theorem FramesWithin.length_le {frames : List Frame} (h : FramesWithin frames) :
    frames.length ≤ maxDepth := by
  cases frames with
  | nil => exact Nat.zero_le _
  | cons frame frames => exact Nat.le_trans (Nat.le_add_right ..) h.1

namespace State

/-- Nothing that was taken in reaches beyond the limit. -/
def Within : State → Prop
  | value frames => FramesWithin frames
  | firstItem frames => FramesWithin (.items [] :: frames)
  | key frames before => FramesWithin (.members before [] :: frames)
  | colon frames before k => FramesWithin (.members before k :: frames)
  | after frames v => FramesWithin frames ∧ frames.length + v.depth ≤ maxDepth

/-- A value begins within the limit. -/
theorem within_of_begin? {frames : List Frame} {token : Token} {s : State}
    (h : FramesWithin frames) (hb : begin? frames token = some s) : s.Within := by
  have hle := h.length_le
  cases token with
  | openArr | openObj =>
    rw [begin?] at hb
    split at hb
    · next hlt =>
      obtain rfl := Option.some.inj hb
      exact ⟨hlt, h⟩
    · contradiction
  | null | bool | num | str =>
    obtain rfl := Option.some.inj hb
    exact ⟨h, hle⟩
  | _ => contradiction

/-- A container that ends is a value one level deeper than what it holds. -/
theorem within_after {frame : Frame} {frames : List Frame} {v : Json}
    (h : FramesWithin (frame :: frames)) (hv : v.depth = frame.depth + 1) :
    (after frames v).Within := by
  obtain ⟨hframe, hframes⟩ := h
  refine ⟨hframes, ?_⟩
  omega

/-- A value that is within the limit may be put in a container. -/
theorem framesWithin_cons {frame frame' : Frame} {frames : List Frame} {v : Json}
    (h : (after (frame :: frames) v).Within) (hframe : frame'.depth = max v.depth frame.depth) :
    FramesWithin (frame' :: frames) := by
  obtain ⟨⟨hbefore, hframes⟩, hv⟩ := h
  rw [List.length_cons] at hv
  refine ⟨?_, hframes⟩
  omega

/-- A token leaves what was taken in within the limit. -/
theorem Within.next? {s s' : State} {token : Token} (h : s.Within)
    (hn : next? s token = some s') : s'.Within := by
  -- the cases are those of the machine: values begin, containers end, and the rest moves on
  unfold State.next? at hn
  split at hn
  · exact within_of_begin? h hn
  · obtain rfl := Option.some.inj hn
    exact within_after h rfl
  · exact within_of_begin? h hn
  · obtain rfl := Option.some.inj hn
    exact within_after h rfl
  · obtain rfl := Option.some.inj hn
    exact h
  · obtain rfl := Option.some.inj hn
    exact h
  · obtain rfl := Option.some.inj hn
    exact framesWithin_cons h rfl
  · next before frames v =>
    obtain rfl := Option.some.inj hn
    have hitems : FramesWithin (.items (v :: before) :: frames) := framesWithin_cons h rfl
    exact within_after hitems (congrArg (· + 1) (depthItems_reverse (v :: before)))
  · obtain rfl := Option.some.inj hn
    exact framesWithin_cons h rfl
  · next before k frames v =>
    obtain rfl := Option.some.inj hn
    have hmembers : FramesWithin (.members ((k, v) :: before) k :: frames) :=
      framesWithin_cons h rfl
    exact within_after hmembers (congrArg (· + 1) (depthMembers_reverse ((k, v) :: before)))
  · contradiction

theorem Within.run? {s s' : State} {ts : List Token} (h : s.Within)
    (hr : run? s ts = some s') : s'.Within := by
  induction ts generalizing s with
  | nil =>
    obtain rfl := Option.some.inj hr
    exact h
  | cons token ts ih =>
    rw [run?_cons] at hr
    obtain ⟨next, hn, hr⟩ := Option.bind_eq_some_iff.1 hr
    exact ih (h.next? hn) hr

end State

/-- No value that is parsed nests too deep. -/
theorem depth_le_of_parse? {t : Text} {j : Json} (h : parse? t = some j) : j.depth ≤ maxDepth := by
  unfold parse? at h
  split at h
  · next v hv =>
    obtain rfl := Option.some.inj h
    obtain ⟨ts, -, hr⟩ := Option.bind_eq_some_iff.1 hv
    have hwithin : (State.after [] v).Within := State.Within.run? (s := .value []) trivial hr
    exact (Nat.zero_add v.depth) ▸ hwithin.2
  · contradiction

end Wireframe.Json
