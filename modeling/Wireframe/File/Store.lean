import Wireframe.File.Fault
import Wireframe.File.Path

/-!
A store of files. An entry is a directory or a file with its bytes, and its place is the list of the
names that lead to it from the top. Paths are followed name by name through directories that exist
(`walk`), from the working directory or, where they are absolute, from the top. What is put at a
place is found there and nowhere else (`find?_put`); to write a file or to create a directory is to
put one entry (`exists_of_write`, `exists_of_create`).
-/

namespace Wireframe

/-- The names that lead from the top of a store to an entry. -/
abbrev Place := List Text

inductive Store.Entry where
  | directory
  | file (bytes : ByteArray)

/-- Whether an entry is a file with these bytes. -/
def Store.Entry.holds (bytes : ByteArray) : Store.Entry → Bool
  | directory => false
  | file own => own.data = bytes.data

structure Store where
  /-- Entries with their places; of several at one place the first counts. -/
  entries : List (Place × Store.Entry)
  /-- The working directory, which is always there. -/
  home : Place

namespace Store

/-! ### Entries -/

/-- The entry at a place. -/
def find? (s : Store) (p : Place) : Option Entry :=
  if p <+: s.home then some .directory else s.entries.lookup p

/-- The store with an entry at a place. -/
def put (s : Store) (p : Place) (e : Entry) : Store := { s with entries := (p, e) :: s.entries }

@[simp] theorem home_put (s : Store) (p : Place) (e : Entry) : (s.put p e).home = s.home := rfl

theorem find?_put (s : Store) (p q : Place) (e : Entry) :
    (s.put p e).find? q = if q = p ∧ ¬ p <+: s.home then some e else s.find? q := by
  by_cases hq : q <+: s.home
  · have h : ¬ (q = p ∧ ¬ p <+: s.home) := fun h => h.2 (h.1 ▸ hq)
    simp [find?, hq, h]
  · by_cases h : q = p
    · subst h
      simp [find?, put, hq]
    · have h' : (q == p) = false := by simpa using h
      simp [find?, put, hq, h, List.lookup_cons, h']

/-! ### Following a path -/

/-- The place that a name leads to from another, which has to be a directory. -/
def next (s : Store) (p : Place) (name : Text) : Except Fault Place :=
  match s.find? p with
  | none => .error .notFound
  | some (.file _) => .error .notDirectory
  | some .directory =>
    if Path.stays name then .ok p
    else if name = Path.up then .ok p.dropLast
    else if (s.find? (p ++ [name])).isSome then .ok (p ++ [name])
    else .error .notFound

/-- The place that names lead to. -/
def walk (s : Store) (p : Place) : List Text → Except Fault Place
  | [] => .ok p
  | name :: names => (s.next p name).bind fun q => walk s q names

/-- The directory that names lead to; an empty name at their end asks for a directory. -/
def walkIn (s : Store) (p : Place) (names : List Text) : Except Fault Place :=
  s.walk p (names ++ [[]])

/-- Where a path starts. -/
def start (s : Store) (path : Text) : Place := if Path.isAbsolute path then [] else s.home

/-! ### Files -/

/-- The bytes of the file at a path. -/
def read (s : Store) (path : Text) : Except Fault ByteArray :=
  if path = [] then .error .notFound
  else
    (s.walk (s.start path) (Path.names path)).bind fun p =>
      match s.find? p with
      | some (.file bytes) => .ok bytes
      | some .directory => .error .isDirectory
      | none => .error .notFound

/-- The store with a file of these bytes at a path, in place of the file that is there. -/
def write (s : Store) (path : Text) (bytes : ByteArray) : Except Fault Store :=
  if path = [] then .error .notFound
  else
    let names := Path.names path
    let name := names.getLast?.getD []
    (s.walkIn (s.start path) names.dropLast).bind fun p =>
      if Path.stays name ∨ name = Path.up then .error .isDirectory
      else
        match s.find? (p ++ [name]) with
        | some .directory => .error .isDirectory
        | _ => .ok (s.put (p ++ [name]) (.file bytes))

/-- A file is written at one place, which is no directory. -/
theorem exists_of_write {s s' : Store} {path : Text} {bytes : ByteArray}
    (h : s.write path bytes = .ok s') :
    ∃ p, s.find? p ≠ some .directory ∧ s' = s.put p (.file bytes) := by
  unfold write at h
  split at h
  · contradiction
  · cases hw : s.walkIn (s.start path) (Path.names path).dropLast with
    | error e => simp [hw, Except.bind] at h
    | ok p =>
      simp only [hw, Except.bind] at h
      split at h
      · contradiction
      · split at h
        · contradiction
        · next hd => exact ⟨_, hd, (Except.ok.inj h).symm⟩

/-! ### Directories -/

/-- Whether names lead to a directory. -/
def isDirectory (s : Store) (p : Place) (names : List Text) : Bool :=
  match s.walkIn p names with
  | .ok _ => true
  | .error _ => false

/-- The store with a new directory, whose names are given from the last to the first. -/
def create (s : Store) (p : Place) (back : List Text) : Except Fault Store :=
  match back.dropWhile List.isEmpty with
  | [] => .error .alreadyExists
  | name :: back =>
    (s.walkIn p back.reverse).bind fun q =>
      if Path.stays name ∨ name = Path.up ∨ (s.find? (q ++ [name])).isSome then
        .error .alreadyExists
      else .ok (s.put (q ++ [name]) .directory)

/-- A directory is created at one place, where there was nothing. -/
theorem exists_of_create {s s' : Store} {p : Place} {back : List Text}
    (h : s.create p back = .ok s') : ∃ q, s.find? q = none ∧ s' = s.put q .directory := by
  unfold create at h
  split at h
  · contradiction
  · next name back _ =>
    cases hw : s.walkIn p back.reverse with
    | error e => simp [hw, Except.bind] at h
    | ok q =>
      simp only [hw, Except.bind] at h
      split at h
      · contradiction
      · next hn =>
        simp only [not_or, Bool.not_eq_true, Option.isSome_eq_false_iff, Option.isNone_iff_eq_none]
          at hn
        exact ⟨_, hn.2.2, (Except.ok.inj h).symm⟩

/-- The store with a directory at the names, which may be there already. -/
def ensure (s : Store) (p : Place) (back : List Text) : Except Fault Store :=
  match s.create p back with
  | .ok s' => .ok s'
  | .error fault => if s.isDirectory p back.reverse then .ok s else .error fault

/-- The paths above a path, nearest first, each as its names from the last to the first. -/
def above : (back : List Text) → List (List Text)
  | [] => []
  | name :: back =>
    if Path.stays name then above back else back.dropWhile Path.stays :: above back

/-- The store with a directory at the first path; the others are those above it, which are created
as far as they are missing. -/
def ensureAll (s : Store) (p : Place) : List (List Text) → Except Fault Store
  | [] => .ok s
  | back :: more =>
    match s.create p back with
    | .error .notFound => (s.ensureAll p more).bind fun s' => s'.ensure p back
    | _ => s.ensure p back

/-- The store with a directory at a path and at all paths above it. -/
def createAll (s : Store) (path : Text) : Except Fault Store :=
  if path = [] then .ok s
  else
    let back := (Path.names path).reverse
    s.ensureAll (s.start path) (back :: above back)

/-! ### Changes -/

/-- The path of a place below the working directory. -/
def relative? (s : Store) (p : Place) : Option Text :=
  if s.home <+: p then some (Text.join ['/'] (p.drop s.home.length)) else none

/-- The files below the working directory that are not in an earlier store with these bytes. -/
def changes (before after : Store) : List (Text × ByteArray) :=
  (after.entries.map (·.1)).eraseDups.filterMap fun p =>
    match after.find? p with
    | some (.file bytes) =>
      if (before.find? p).any (·.holds bytes) then none
      else (after.relative? p).map fun path => (path, bytes)
    | _ => none

end Store

end Wireframe
