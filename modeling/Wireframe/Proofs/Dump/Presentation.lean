import Wireframe.Dump
import Wireframe.Proofs.Json.Parse

/-! The presentations of a tree. A node may be presented as an object, with its members in any order
and others among them, or as a list, and each node in its own way (`Presents`); so may a
ratio (`Ratio.Presented`). Every presentation of a tree is read as that tree
(`ofJson?_of_presents`), and since a value is read from each of its spellings, a text that spells a
presentation of a tree is a dump of it, however it is written (`load_of_presents`). What is written
for a tree is one of its presentations (`presents_toJson`). -/

namespace Wireframe

open Json

/-! ### Members -/

namespace Json

/-- The members are the given ones in some order, among others whose keys are none of the given
keys. -/
def Holds (keys : List Text) (fields members : List (Text × Json)) : Prop :=
  ∃ extra : List (Text × Json), members.Perm (fields ++ extra) ∧ ∀ m ∈ extra, m.1 ∉ keys

/-- The members of a key are among the given ones. -/
theorem Holds.filter {keys : List Text} {fields members : List (Text × Json)}
    (h : Holds keys fields members) {key : Text} (hk : key ∈ keys) :
    (members.filter (·.1 = key)).Perm (fields.filter (·.1 = key)) := by
  obtain ⟨extra, hperm, hextra⟩ := h
  have hnone : extra.filter (·.1 = key) = [] := by
    rw [List.filter_eq_nil_iff]
    intro m hm he
    exact hextra m hm (by simpa [← of_decide_eq_true he] using hk)
  have := hperm.filter (·.1 = key)
  rwa [List.filter_append, hnone, List.append_nil] at this

theorem Holds.only? {keys : List Text} {fields members : List (Text × Json)}
    (h : Holds keys fields members) (key : Text) {k : Text} {v : Json} (hk : key ∈ keys)
    (hf : fields.filter (·.1 = key) = [(k, v)]) : only? key members = some v := by
  have hp := h.filter hk
  rw [hf, List.perm_singleton] at hp
  rw [Json.only?, hp]

theorem Holds.optional? {keys : List Text} {fields members : List (Text × Json)}
    (h : Holds keys fields members) (key : Text) {k : Text} {v : Json} (hk : key ∈ keys)
    (hf : fields.filter (·.1 = key) = [(k, v)]) : optional? key members = some v := by
  have hp := h.filter hk
  rw [hf, List.perm_singleton] at hp
  rw [Json.optional?, hp]

theorem Holds.optional?_absent {keys : List Text} {fields members : List (Text × Json)}
    (h : Holds keys fields members) (key : Text) (hk : key ∈ keys)
    (hf : fields.filter (·.1 = key) = []) : Json.optional? key members = some .null := by
  have hp := h.filter hk
  rw [hf, List.perm_nil] at hp
  rw [Json.optional?, hp]

theorem word?_num (n : UInt32) : (num (.ofNat n.toNat)).word? = some n := by
  have hv : (Numeral.ofNat n.toNat).toNat? = some n.toNat := by
    simp [Numeral.toNat?, Numeral.ofNat, Text.value_ofNat]
  rw [word?, hv, Option.bind_some, if_pos n.toNat_lt, UInt32.ofNat_toNat]

end Json

/-! ### Ratios -/

namespace Ratio

def nKey : Text := ['n']

def dKey : Text := ['d']

/-- The presentations of a ratio. -/
inductive Presented (r : Ratio) : Json → Prop
  | object {members : List (Text × Json)}
      (h : Holds [nKey, dKey]
        [(nKey, .num (.ofNat r.n.toNat)), (dKey, .num (.ofNat r.d.toNat))] members) :
      Presented r (.obj members)
  | list : Presented r (.arr [.num (.ofNat r.n.toNat), .num (.ofNat r.d.toNat)])

/-- The presentations of a section's ratio, if it has one. -/
inductive SharePresented : Option Ratio → Json → Prop
  | none : SharePresented none .null
  | some {r : Ratio} {j : Json} (h : r.Presented j) : SharePresented (some r) j

theorem ofJson?_of_presented {r : Ratio} {j : Json} (h : r.Presented j) :
    ofJson? j = some r := by
  cases h with
  | object h =>
    rw [ofJson?, h.only? ['n'] (by decide) rfl, h.only? ['d'] (by decide) rfl]
    simp only [Option.bind_some, word?_num, Option.map_some]
  | list =>
    rw [ofJson?]
    simp only [Option.bind_some, word?_num, Option.map_some]

theorem ofNullable?_of_presented {ratio : Option Ratio} {j : Json} (h : SharePresented ratio j) :
    ofNullable? j = some ratio := by
  cases h with
  | none => rfl
  | some h =>
    have hr := congrArg (Option.map Option.some) (ofJson?_of_presented h)
    cases h <;> exact hr

end Ratio

/-! ### Nodes -/

namespace Kind

/-- The keys of a kind's fields, in their order. -/
def keys : Kind → List Text
  | .root => [Node.childrenKey]
  | .sect => [Node.nameKey, Node.ratioKey, Node.childrenKey]
  | .group => [Node.childrenKey]
  | .row => [Node.textKey]

theorem ofJson?_name (top : Bool) (k : Kind) : ofJson? top (.str k.name) = some k := by
  cases k <;> rfl

end Kind

namespace Node

/-- The members of an object that presents a node of the kind with the given fields. -/
def HoldsNode (k : Kind) (fields members : List (Text × Json)) : Prop :=
  Holds (typeKey :: k.keys) (typeMember k :: fields) members

/-- The object or the list of a node of the kind with all its fields, given in their order. -/
inductive FormOf (k : Kind) (fields : List (Text × Json)) : Json → Prop
  | object {members : List (Text × Json)} (h : HoldsNode k fields members) :
      FormOf k fields (.obj members)
  | list : FormOf k fields (.arr (.str k.name :: fields.map (·.2)))

mutual

/-- The presentations of a tree. The object of a section without a ratio may do without that
member. -/
inductive Presents : Json → Node → Prop
  | root {j : Json} {items : List Json} {ts : List Node} (hi : PresentsAll items ts)
      (hj : FormOf .root [(childrenKey, .arr items)] j) : Presents j (.root ts)
  | group {j : Json} {items : List Json} {ts : List Node} (hi : PresentsAll items ts)
      (hj : FormOf .group [(childrenKey, .arr items)] j) : Presents j (.group ts)
  | row {j : Json} {text : Text} (hj : FormOf .row [(textKey, .str text)] j) :
      Presents j (.row text)
  | sect {j share : Json} {items : List Json} {name : Text} {ratio : Option Ratio} {ts : List Node}
      (hr : Ratio.SharePresented ratio share) (hi : PresentsAll items ts)
      (hj : FormOf .sect [(nameKey, .str name), (ratioKey, share), (childrenKey, .arr items)] j) :
      Presents j (.sect name ratio ts)
  | unshared {members : List (Text × Json)} {items : List Json} {name : Text} {ts : List Node}
      (hi : PresentsAll items ts)
      (hj : HoldsNode .sect [(nameKey, .str name), (childrenKey, .arr items)] members) :
      Presents (.obj members) (.sect name none ts)

inductive PresentsAll : List Json → List Node → Prop
  | nil : PresentsAll [] []
  | cons {j : Json} {js : List Json} {t : Node} {ts : List Node} (h : Presents j t)
      (hs : PresentsAll js ts) : PresentsAll (j :: js) (t :: ts)

end

/-! ### Reading a presentation -/

theorem childrenOf?_eq_bind (members : List (Text × Json)) :
    childrenOf? members = (only? childrenKey members).bind ofArray? := by
  induction members with
  | nil => rfl
  | cons m members ih =>
    obtain ⟨k, j⟩ := m
    rw [childrenOf?, only?]
    by_cases hk : k = childrenKey
    · rw [if_pos hk, List.filter_cons_of_pos (by simpa using hk)]
      cases hf : members.filter (·.1 = childrenKey) with
      | nil =>
        have hany : members.any (·.1 = childrenKey) = false := by
          simpa [List.filter_eq_nil_iff] using hf
        rw [hany]
        rfl
      | cons m' more =>
        have hany : members.any (·.1 = childrenKey) = true := by
          have hm : m' ∈ members.filter (·.1 = childrenKey) := hf ▸ List.mem_cons_self
          exact List.any_eq_true.2 ⟨m', (List.mem_filter.1 hm).1, (List.mem_filter.1 hm).2⟩
        rw [if_pos hany]
        rfl
    · rw [if_neg hk, List.filter_cons_of_neg (by simpa using hk), ih, only?]

/-- An object that presents a node tells its kind. -/
theorem HoldsNode.kind {k : Kind} {fields members : List (Text × Json)}
    (h : HoldsNode k fields members) (hf : fields.filter (·.1 = typeKey) = []) (top : Bool) :
    (only? typeKey members).bind (Kind.ofJson? top) = some k := by
  have hfilter : (typeMember k :: fields).filter (·.1 = typeKey) = [(typeKey, .str k.name)] := by
    rw [List.filter_cons_of_pos (by simp [typeMember]), hf, typeMember]
  rw [Holds.only? h typeKey List.mem_cons_self hfilter, Option.bind_some, Kind.ofJson?_name]

theorem HoldsNode.children {k : Kind} {fields members : List (Text × Json)} {items : List Json}
    (h : HoldsNode k fields members) (hk : childrenKey ∈ k.keys)
    (hf : fields.filter (·.1 = childrenKey) = [(childrenKey, .arr items)]) :
    childrenOf? members = ofJsons? items := by
  have hne : ¬ decide (typeKey = childrenKey) = true := by decide
  have hfilter : (typeMember k :: fields).filter (·.1 = childrenKey) =
      [(childrenKey, .arr items)] := by
    rw [List.filter_cons_of_neg (by exact hne), hf]
  rw [childrenOf?_eq_bind, Holds.only? h childrenKey (List.mem_cons_of_mem _ hk) hfilter,
    Option.bind_some, ofArray?]

mutual

/-- A tree is read from each of its presentations. -/
theorem ofJson?_of_presents (top : Bool) {j : Json} {t : Node} (h : Presents j t) :
    ofJson? top j = some t := by
  cases h with
  | root hi hj | group hi hj =>
    cases hj with
    | object h =>
      rw [ofJson?, h.kind rfl, Option.bind_some, h.children (by decide) rfl,
        ofJsons?_of_presentsAll hi]
      rfl
    | list =>
      change (ofJsons? _).map _ = _
      rw [ofJsons?_of_presentsAll hi]
      rfl
  | row hj =>
    cases hj with
    | object h =>
      rw [ofJson?, h.kind rfl, Option.bind_some, Holds.only? h textKey (by decide) rfl]
      rfl
    | list => rfl
  | sect hr hi hj =>
    cases hj with
    | object h =>
      rw [ofJson?, h.kind rfl, Option.bind_some, Holds.only? h nameKey (by decide) rfl,
        Holds.optional? h ratioKey (by decide) rfl, h.children (by decide) rfl,
        ofJsons?_of_presentsAll hi, Option.bind_some, Option.bind_some,
        Ratio.ofNullable?_of_presented hr]
      rfl
    | list =>
      change (Ratio.ofNullable? _).bind (fun ratio => (ofJsons? _).map (sect _ ratio)) = _
      rw [Ratio.ofNullable?_of_presented hr, ofJsons?_of_presentsAll hi]
      rfl
  | unshared hi h =>
    rw [ofJson?, h.kind rfl, Option.bind_some, Holds.only? h nameKey (by decide) rfl,
      Holds.optional?_absent h ratioKey (by decide) rfl, h.children (by decide) rfl,
      ofJsons?_of_presentsAll hi]
    rfl

theorem ofJsons?_of_presentsAll {js : List Json} {ts : List Node} (h : PresentsAll js ts) :
    ofJsons? js = some ts := by
  cases h with
  | nil => rfl
  | cons h hs =>
    rw [ofJsons?, ofJson?_of_presents false h, Option.bind_some, ofJsons?_of_presentsAll hs]
    rfl

end

/-! ### What is written for a tree -/

theorem holds_self (keys : List Text) (fields : List (Text × Json)) : Holds keys fields fields :=
  ⟨[], by rw [List.append_nil], by simp⟩

theorem sharePresented_toJson (ratio : Option Ratio) :
    Ratio.SharePresented ratio ((ratio.map Ratio.toJson).getD .null) := by
  cases ratio with
  | none => exact .none
  | some r => exact .some (.object (holds_self ..))

mutual

theorem presents_toJson (t : Node) : Presents t.toJson t := by
  cases t with
  | root ts => exact .root (presentsAll_toJsons ts) (.object (holds_self ..))
  | sect name ratio ts =>
    exact .sect (sharePresented_toJson ratio) (presentsAll_toJsons ts) (.object (holds_self ..))
  | group ts => exact .group (presentsAll_toJsons ts) (.object (holds_self ..))
  | row text => exact .row (.object (holds_self ..))

theorem presentsAll_toJsons (ts : List Node) : PresentsAll (toJsons ts) ts := by
  cases ts with
  | nil => exact .nil
  | cons t ts => exact .cons (presents_toJson t) (presentsAll_toJsons ts)

end

end Node

namespace Dump

open Node

/-- A text that spells a presentation of a tree is loaded as that tree, unless it nests too deep. -/
theorem load_of_written {t : Node} {j : Json} {text : Text} (ht : t.kind = .root)
    (hp : Presents j t) (hw : Written j.tokens text) :
    load text = if j.depth ≤ Json.maxDepth then .ok t else .error .notTree := by
  rw [load, parse?_of_written hw]
  split_ifs
  · rw [Option.bind_some, ofJson?_of_presents true hp]
    simp only [ht, if_true]
  · rfl

/-- A text that presents a tree with a root on top, in any of the forms of its nodes and ratios and
in any spelling, is loaded as that tree if its lists and objects are nested at most 127 deep, and is
no dump if they are nested deeper. -/
theorem load_of_presents {t : Node} {j : Json} {text : Text} (ht : t.kind = .root)
    (hp : Presents j t) (hw : Written j.tokens text) :
    (j.depth ≤ 127 → load text = .ok t) ∧ (127 < j.depth → load text = .error .notTree) := by
  have hload := load_of_written ht hp hw
  exact ⟨fun hd => hload.trans (if_pos hd), fun hd => hload.trans (if_neg (Nat.not_le.2 hd))⟩

/-- The number that is written `1E+2`. -/
def sampleNumber : Json := .num ⟨false, ['1'], [], some (false, ['2'])⟩

/-- A root as a list, and a section without a ratio as an object in another order and with one
member more. -/
def sampleValue : Json :=
  .arr [.str "root".toList,
    .arr [.obj [(['x'], sampleNumber), (childrenKey, .arr []), (nameKey, .str ['😀']),
      (typeKey, .str "section".toList)]]]

/-- The value with white space, a plus sign in the exponent, and a surrogate pair. -/
def sampleSpelling : Text :=
  ("[\t\"root\",[\x7b\"x\": 1E+2,\"children\":[],\"name\":\"\\ud83D\\uDE00\",\n" ++
    "\"type\":\"section\"\x7d]]").toList

theorem presents_sampleValue : Presents sampleValue (.root [.sect ['😀'] none []]) :=
  .root (.cons (.unshared .nil ⟨[(['x'], sampleNumber)], List.reverse_perm _, by decide⟩) .nil)
    .list

theorem written_sampleSpelling : Written sampleValue.tokens sampleSpelling := by
  have hspace : ∀ c, isSpace c = true → Written [] [c] := fun c hc => .nil (by simpa using hc)
  have hopen : Written [.openArr] ['['] := written_fixed (by decide)
  have hclose : Written [.closeArr] [']'] := written_fixed (by decide)
  have hcomma : Written [.comma] [','] := written_fixed (by decide)
  have hmember : ∀ (k : Text) {ts : List Token} {t : Text}, Written ts t →
      Written (.str k :: .colon :: ts) (quote k ++ (':' :: t)) := fun k _ _ h =>
    (written_quote k).append ((written_fixed (w := [':']) (by decide)).append h)
  have hnumeral : Numeral.Spelled ⟨false, ['1'], [], some (false, ['2'])⟩ "1E+2".toList :=
    .parts (by decide) (by decide) .absent (.plus (.inr rfl) (by decide))
  have hnumber : Written [.num ⟨false, ['1'], [], some (false, ['2'])⟩] "1E+2".toList :=
    (Token.Spelled.num hnumeral (by decide +kernel)).written
  have hname : Written [.str ['😀']] "\"\\ud83D\\uDE00\"".toList := by
    have hhigh : UnitSpelled (0xD800 + 0x3D) "\\ud83D".toList :=
      .digits (i := 13) (j := 8) (k := 3) (l := 13) (by decide) (by decide) (by decide) (by decide)
    have hlow : UnitSpelled (0xDC00 + 0x200) "\\uDE00".toList :=
      .digits (i := 13) (j := 14) (k := 0) (l := 0) (by decide) (by decide) (by decide) (by decide)
    exact (Token.Spelled.str
      (.cons (.pair (by decide) (by decide) (by decide) hhigh hlow) .nil)).written
  have hsection := (hmember ['x'] ((hspace ' ' rfl).append hnumber)).append
    (hcomma.append ((hmember childrenKey (hopen.append hclose)).append
      (hcomma.append ((hmember nameKey hname).append
        (hcomma.append ((hspace '\n' rfl).append
          (hmember typeKey (written_quote "section".toList))))))))
  have hstart : Written [.openObj] ['\x7b'] := written_fixed (by decide)
  have hend : Written [.closeObj] ['\x7d'] := written_fixed (by decide)
  have hobject := hstart.append (hsection.append hend)
  exact hopen.append ((hspace '\t' rfl).append ((written_quote "root".toList).append
    (hcomma.append (hopen.append (hobject.append (hclose.append hclose))))))

theorem load_of_presents_sampleSpelling :
    load sampleSpelling = .ok (.root [.sect ['😀'] none []]) :=
  (load_of_presents rfl presents_sampleValue written_sampleSpelling).1 (by decide)

end Dump

end Wireframe
