import Mathlib.Tactic.SplitIfs
import Wireframe.File.Store
import Wireframe.Proofs.Result

/-! Places in a store. A path locates a place if the names before its last one lead to a directory
(`Store.Locates`), whether or not something is at that place. To write a file is to put it at the
place that its path locates, where no directory may be (`write_eq_ok_iff`), and it is read back from
there (`read_of_locates`). Files are put without moving anything: all paths locate what they located
before (`locates_put_file_iff`). Creating directories leaves all files as they are
(`sameFiles_of_createAll`). -/

namespace Wireframe

/-! ### The last name of a path -/

namespace Path

/-- The last name of a path. -/
def last (path : Text) : Text := (names path).getLast?.getD []

/-- The path is not empty, and its last name leads neither nowhere nor up. -/
def EndsInName (path : Text) : Prop := path ≠ [] ∧ stays (last path) = false ∧ last path ≠ up

theorem names_eq (path : Text) : names path = (names path).dropLast ++ [last path] := by
  have hne : names path ≠ [] := Text.splitBy_ne_nil _ path
  rw [last, List.getLast?_eq_some_getLast hne, Option.getD_some, List.dropLast_concat_getLast hne]

end Path

namespace Store

variable {s s' : Store} {p q r : Place} {names more : List Text} {name path : Text}
  {bytes : ByteArray}

/-! ### Following a path -/

theorem next_eq_ok_iff :
    s.next p name = .ok q ↔ s.find? p = some .directory ∧
      if Path.stays name then q = p
      else if name = Path.up then q = p.dropLast
      else q = p ++ [name] ∧ (s.find? q).isSome := by
  have hok : ∀ {r : Place}, (Except.ok r : Except Fault Place) = .ok q ↔ q = r := by
    intro r
    rw [Except.ok.injEq, eq_comm]
  unfold next
  split
  · next h => simp [h]
  · next h => simp [h]
  · next h =>
    rw [h, eq_self, true_and]
    split_ifs with _ _ hfound
    · exact hok
    · exact hok
    · rw [hok]
      exact ⟨fun hq => ⟨hq, hq ▸ hfound⟩, And.left⟩
    · exact ⟨fun hq => by contradiction, fun ⟨hq, hsome⟩ => absurd (hq ▸ hsome) hfound⟩

theorem walkIn_nil_eq_ok_iff : s.walkIn p [] = .ok q ↔ s.find? p = some .directory ∧ q = p := by
  rw [walkIn, List.nil_append, walk, bind_eq_ok_iff]
  simp [walk, next_eq_ok_iff, Path.stays]

theorem walkIn_cons_eq_ok_iff :
    s.walkIn p (name :: names) = .ok q ↔ ∃ r, s.next p name = .ok r ∧ s.walkIn r names = .ok q := by
  rw [walkIn, List.cons_append, walk, bind_eq_ok_iff]
  rfl

/-- Names lead nowhere but from a directory. -/
theorem directory_of_walkIn (h : s.walkIn p names = .ok q) : s.find? p = some .directory := by
  cases names with
  | nil => exact (walkIn_nil_eq_ok_iff.1 h).1
  | cons name names =>
    obtain ⟨r, hr, -⟩ := walkIn_cons_eq_ok_iff.1 h
    exact (next_eq_ok_iff.1 hr).1

/-- Names lead to a directory. -/
theorem directory_walkIn (h : s.walkIn p names = .ok q) : s.find? q = some .directory := by
  induction names generalizing p with
  | nil =>
    obtain ⟨hd, rfl⟩ := walkIn_nil_eq_ok_iff.1 h
    exact hd
  | cons name names ih =>
    obtain ⟨r, -, hr⟩ := walkIn_cons_eq_ok_iff.1 h
    exact ih hr

theorem walk_append_of_walkIn (h : s.walkIn p names = .ok q) :
    s.walk p (names ++ more) = s.walk q more := by
  induction names generalizing p with
  | nil =>
    obtain ⟨-, rfl⟩ := walkIn_nil_eq_ok_iff.1 h
    rfl
  | cons name names ih =>
    obtain ⟨r, hnext, hr⟩ := walkIn_cons_eq_ok_iff.1 h
    rw [List.cons_append, walk, hnext]
    exact ih hr

/-! ### Located places -/

/-- The path names something in a directory that is there, and the place is where it is or would
be. -/
def Locates (s : Store) (path : Text) (p : Place) : Prop :=
  Path.EndsInName path ∧ ∃ d, s.walkIn (s.start path) (Path.names path).dropLast = .ok d ∧
    p = d ++ [Path.last path]

theorem Locates.unique (hp : s.Locates path p) (hq : s.Locates path q) : p = q := by
  obtain ⟨-, d, hd, rfl⟩ := hp
  obtain ⟨-, e, he, rfl⟩ := hq
  rw [Except.ok.inj (hd.symm.trans he)]

theorem write_eq_ok_iff :
    s.write path bytes = .ok s' ↔
      ∃ p, s.Locates path p ∧ s.find? p ≠ some .directory ∧ s' = s.put p (.file bytes) := by
  have hname : (Path.names path).getLast?.getD [] = Path.last path := rfl
  simp only [write, hname]
  by_cases hpath : path = []
  · simp [hpath, Locates, Path.EndsInName]
  rw [if_neg hpath, bind_eq_ok_iff]
  by_cases hlast : Path.stays (Path.last path) ∨ Path.last path = Path.up
  · have hnone : ∀ p, ¬ s.Locates path p := fun p h => by
      obtain ⟨⟨-, hs, hu⟩, -⟩ := h
      rcases hlast with hlast | hlast
      · rw [hs] at hlast
        contradiction
      · exact hu hlast
    simp [hlast, hnone]
  · have hends : Path.EndsInName path := by
      simp only [not_or, Bool.not_eq_true] at hlast
      exact ⟨hpath, hlast⟩
    simp only [if_neg hlast, Locates, hends, true_and]
    constructor
    · rintro ⟨d, hd, hput⟩
      refine ⟨_, ⟨d, hd, rfl⟩, ?_⟩
      split at hput
      · contradiction
      · next hfree => exact ⟨hfree, (Except.ok.inj hput).symm⟩
    · rintro ⟨p, ⟨d, hd, rfl⟩, hfree, rfl⟩
      refine ⟨d, hd, ?_⟩
      split
      · contradiction
      · rfl

theorem read_of_locates (h : s.Locates path p) (hf : s.find? p = some (.file bytes)) :
    s.read path = .ok bytes := by
  obtain ⟨⟨hpath, hstays, hup⟩, d, hd, rfl⟩ := h
  have hnext : s.next d (Path.last path) = .ok (d ++ [Path.last path]) := by
    rw [next_eq_ok_iff, if_neg (by simp [hstays]), if_neg hup, hf]
    exact ⟨directory_walkIn hd, rfl, rfl⟩
  have hwalk : s.walk (s.start path) (Path.names path) = .ok (d ++ [Path.last path]) := by
    rw [Path.names_eq path, walk_append_of_walkIn hd, walk, hnext]
    rfl
  rw [read, if_neg hpath, hwalk]
  simp only [Except.bind, hf]

/-! ### Putting a file -/

/-- A file is put where no directory is. -/
theorem find?_put_file (hr : s.find? r ≠ some .directory) :
    (s.put r (.file bytes)).find? p = if p = r then some (.file bytes) else s.find? p := by
  have hhome : ¬ r <+: s.home := fun h => hr (if_pos h)
  simp [find?_put, hhome]

theorem directory_put_file_iff (hr : s.find? r ≠ some .directory) :
    (s.put r (.file bytes)).find? p = some .directory ↔ s.find? p = some .directory := by
  rw [find?_put_file hr]
  split_ifs with h
  · simp [h, hr]
  · rfl

theorem next_put_file_iff (hr : s.find? r ≠ some .directory) (hq : q ≠ r) :
    (s.put r (.file bytes)).next p name = .ok q ↔ s.next p name = .ok q := by
  rw [next_eq_ok_iff, next_eq_ok_iff, directory_put_file_iff hr, find?_put_file hr, if_neg hq]

/-- No way leads through a file, so ways stay the same when one is put. -/
theorem walkIn_put_file_iff (hr : s.find? r ≠ some .directory) :
    (s.put r (.file bytes)).walkIn p names = .ok q ↔ s.walkIn p names = .ok q := by
  induction names generalizing p with
  | nil => rw [walkIn_nil_eq_ok_iff, walkIn_nil_eq_ok_iff, directory_put_file_iff hr]
  | cons name names ih =>
    -- a first step to the new file may succeed now where it failed, but leads nowhere from there
    simp only [walkIn_cons_eq_ok_iff, ih]
    refine exists_congr fun t => and_congr_left fun ht => next_put_file_iff hr ?_
    rintro rfl
    exact hr (directory_of_walkIn ht)

theorem locates_put_file_iff (hr : s.find? r ≠ some .directory) :
    (s.put r (.file bytes)).Locates path p ↔ s.Locates path p := by
  simp only [Locates, walkIn_put_file_iff hr]
  rfl

/-! ### Writable paths -/

/-- Any file can be written to the path. -/
def Writable (s : Store) (path : Text) : Prop := ∀ bytes, ∃ s', s.write path bytes = .ok s'

theorem writable_iff : s.Writable path ↔ ∃ p, s.Locates path p ∧ s.find? p ≠ some .directory := by
  simp only [Writable, write_eq_ok_iff]
  constructor
  · intro h
    obtain ⟨-, p, hp, hfree, -⟩ := h .empty
    exact ⟨p, hp, hfree⟩
  · rintro ⟨p, hp, hfree⟩ bytes
    exact ⟨_, p, hp, hfree, rfl⟩

theorem writable_put_file_iff (hr : s.find? r ≠ some .directory) :
    (s.put r (.file bytes)).Writable path ↔ s.Writable path := by
  simp only [writable_iff, locates_put_file_iff hr, ne_eq, directory_put_file_iff hr]

/-! ### Creating directories -/

/-- The same files with the same bytes, whatever directories there are. -/
def SameFiles (s s' : Store) : Prop :=
  ∀ p bytes, s'.find? p = some (.file bytes) ↔ s.find? p = some (.file bytes)

theorem SameFiles.refl (s : Store) : s.SameFiles s := fun _ _ => Iff.rfl

theorem SameFiles.trans {s'' : Store} (h : s.SameFiles s') (h' : s'.SameFiles s'') :
    s.SameFiles s'' := fun p bytes => (h' p bytes).trans (h p bytes)

theorem sameFiles_of_create {back : List Text} (h : s.create p back = .ok s') : s.SameFiles s' := by
  obtain ⟨q, hq, rfl⟩ := exists_of_create h
  intro r bytes
  rw [find?_put]
  split_ifs with hr
  · simp [hr.1, hq]
  · rfl

theorem sameFiles_of_ensure {back : List Text} (h : s.ensure p back = .ok s') : s.SameFiles s' := by
  unfold ensure at h
  split at h
  · next hcreate => exact Except.ok.inj h ▸ sameFiles_of_create hcreate
  · split_ifs at h
    exact Except.ok.inj h ▸ SameFiles.refl s

theorem sameFiles_of_ensureAll {backs : List (List Text)} (h : s.ensureAll p backs = .ok s') :
    s.SameFiles s' := by
  induction backs generalizing s' with
  | nil => exact Except.ok.inj h ▸ SameFiles.refl s
  | cons back more ih =>
    unfold ensureAll at h
    split at h
    · obtain ⟨t, ht, hs'⟩ := bind_eq_ok_iff.1 h
      exact (ih ht).trans (sameFiles_of_ensure hs')
    · exact sameFiles_of_ensure h

theorem sameFiles_of_createAll (h : s.createAll path = .ok s') : s.SameFiles s' := by
  unfold createAll at h
  split_ifs at h
  · exact Except.ok.inj h ▸ SameFiles.refl s
  · exact sameFiles_of_ensureAll h

end Store

end Wireframe
