import OpenAvc.Data.JsonSorted
import OpenAvc.Data.Utf8

/-! `canonical_json`: the bytes a message is signed by. -/

namespace OpenAvc.Cloud

open Json.Scan (scalar rejoin intLimit)

/-- A `float` that is no number. -/
inductive NonFinite
  | nan
  | infinity
  | negativeInfinity
  deriving DecidableEq, Repr

namespace NonFinite

def str : NonFinite → String
  | nan => "nan"
  | infinity => "inf"
  | negativeInfinity => "-inf"

/-- As JSON writes it. -/
def constant : NonFinite → String
  | nan => "NaN"
  | infinity => "Infinity"
  | negativeInfinity => "-Infinity"

def ofConstant (name : String) : NonFinite :=
  if name = "NaN" then nan else if name = "Infinity" then infinity else negativeInfinity

theorem ofConstant_constant (x : NonFinite) : ofConstant x.constant = x := by
  cases x <;> decide

end NonFinite

/-- A key of a Python dict. -/
inductive Key
  | str (s : Text)
  | int (n : Int)
  | bool (b : Bool)
  | float (d : Decimal)
  | nonFinite (x : NonFinite)
  | none
  deriving DecidableEq

namespace Key

/-- `str(k)` -/
def spelled : Key → Text
  | str s => s
  | int n => intText n
  | bool b => text (if b then "True" else "False")
  | float d => floatText d
  | nonFinite x => text x.str
  | none => text "None"

/-- The name `json.dumps` gives the member. -/
def onWire : Key → Text
  | str s => s
  | int n => intText n
  | bool b => text (if b then "true" else "false")
  | float d => floatText d
  | nonFinite x => text x.constant
  | none => text "null"

/-- An `int` that is not too long to be written. -/
def short : Key → Bool
  | int n => n.natAbs < 10 ^ intLimit
  | _ => true

end Key

/-- What a payload is built from. -/
inductive Value
  | none
  | bool (b : Bool)
  | int (n : Int)
  | float (d : Decimal)
  | nonFinite (x : NonFinite)
  | str (s : Text)
  | list (items : List Value)
  | dict (fields : List (Key × Value))

namespace Value

mutual

/-- `v` with its keys spelled by `spell` and its texts joined by `join`. Of the
members of one name the last one counts, in the place of the first. -/
def spelledBy (spell : Key → Text) (join : Text → Text) : Value → Json
  | none => .null
  | bool b => .bool b
  | int n => .int n
  | float d => .float d
  | nonFinite x => .constant x.constant
  | str s => .str (join s)
  | list items => .arr (spelledByItems spell join items)
  | dict fields => .obj (spelledByFields spell join [] fields)

def spelledByItems (spell : Key → Text) (join : Text → Text) : List Value → List Json
  | [] => []
  | v :: items => spelledBy spell join v :: spelledByItems spell join items

def spelledByFields (spell : Key → Text) (join : Text → Text) (done : List (Text × Json)) :
    List (Key × Value) → List (Text × Json)
  | [] => done
  | (k, v) :: fields => spelledByFields spell join (Dict.set done (join (spell k)) (spelledBy spell join v)) fields

end

/-- `_normalize_keys` -/
def normalizeKeys (v : Value) : Json :=
  v.spelledBy Key.spelled id

mutual

/-- The members `json.dumps` writes, as they come. -/
def onWire : Value → Json
  | none => .null
  | bool b => .bool b
  | int n => .int n
  | float d => .float d
  | nonFinite x => .constant x.constant
  | str s => .str s
  | list items => .arr (onWireItems items)
  | dict fields => .obj (onWireFields fields)

def onWireItems : List Value → List Json
  | [] => []
  | v :: items => onWire v :: onWireItems items

def onWireFields : List (Key × Value) → List (Text × Json)
  | [] => []
  | (k, v) :: fields => (k.onWire, onWire v) :: onWireFields fields

end

mutual

/-- `str(k)` takes every key in `v`, and there is room for its containers inside
one another. -/
def spellable (room : Nat) : Value → Bool
  | list items => 0 < room && spellableItems (room - 1) items
  | dict fields => 0 < room && spellableFields (room - 1) fields
  | _ => true

def spellableItems (room : Nat) : List Value → Bool
  | [] => true
  | v :: items => spellable room v && spellableItems room items

def spellableFields (room : Nat) : List (Key × Value) → Bool
  | [] => true
  | (k, v) :: fields => k.short && spellable room v && spellableFields room fields

end

/-- `v` as JSON spells it. -/
def asRead (v : Value) : Json :=
  v.spelledBy Key.onWire rejoin

mutual

/-- A value that `json.loads` has made. -/
def ofJson : Json → Value
  | .null => none
  | .bool b => bool b
  | .int n => int n
  | .float d => float d
  | .constant name => nonFinite (.ofConstant name)
  | .str s => str s
  | .arr items => list (ofJsonItems items)
  | .obj fields => dict (ofJsonFields fields)

def ofJsonItems : List Json → List Value
  | [] => []
  | v :: items => ofJson v :: ofJsonItems items

def ofJsonFields : List (Text × Json) → List (Key × Value)
  | [] => []
  | (k, v) :: fields => (.str k, ofJson v) :: ofJsonFields fields

end

end Value

/-- The layout a message is signed in. -/
def canonicalLayout : Json.Layout where
  sortKeys := true
  ensureAscii := false
  compact := true

/-- `.encode("utf-8")`, which raises on a surrogate. -/
def encode (t : Text) : Option Bytes :=
  if t.all scalar then some (encodeUtf8 t) else none

/-- `canonical_json`, or `none` where it raises. -/
def canonicalJson (room : Nat) (v : Value) : Option Bytes :=
  if v.spellable room && v.normalizeKeys.writable room then encode (Json.dumps canonicalLayout v.normalizeKeys) else none

/-- `json.dumps(v)` -/
def jsonDumps (room : Nat) (v : Value) : Option Text :=
  if v.spellable room && v.onWire.writable room then some (Json.dumps {} v.onWire) else none

namespace Value

mutual

/-- What the receiver reads of what `json.dumps` has written. -/
theorem readBack_onWire (v : Value) : Json.readBack {} v.onWire = v.asRead := by
  unfold asRead
  match v with
  | none | bool _ | int _ | float _ | nonFinite _ => rfl
  | str s => exact congrArg Json.str (Json.Scan.rejoinAs_of_ascii rfl s)
  | list items => exact congrArg Json.arr (readBackItems_onWire items)
  | dict fields => exact congrArg Json.obj (readBackFields_onWire fields [])

theorem readBackItems_onWire (items : List Value) :
    Json.readBackItems {} (onWireItems items) = spelledByItems Key.onWire rejoin items := by
  match items with
  | [] => rfl
  | v :: items =>
    have here := readBack_onWire v
    rw [onWireItems, Json.readBackItems, spelledByItems, here, readBackItems_onWire items, asRead]

theorem readBackFields_onWire (fields : List (Key × Value)) (done : List (Text × Json)) :
    Json.readBackFields {} done (onWireFields fields) = spelledByFields Key.onWire rejoin done fields := by
  match fields with
  | [] => rfl
  | (k, v) :: fields =>
    have here := readBack_onWire v
    rw [onWireFields, Json.readBackFields, spelledByFields, here, Json.Scan.rejoinAs_of_ascii rfl,
      readBackFields_onWire fields, asRead]

end

mutual

/-- However its keys are spelled, a value nests no deeper than what is written of it. -/
theorem readable_spelledBy {spell : Key → Text} {join : Text → Text} {room : Nat} (v : Value)
    (readable : Json.Readable room v.onWire) : Json.Readable room (v.spelledBy spell join) := by
  match v, readable with
  | none, _ | bool _, _ | float _, _ | str _, _ => trivial
  | int _, readable | nonFinite _, readable => exact readable
  | list items, ⟨more, inside⟩ => exact ⟨more, readable_spelledByItems items inside⟩
  | dict fields, ⟨more, inside⟩ => exact ⟨more, readable_spelledByFields fields [] trivial inside⟩

theorem readable_spelledByItems {spell : Key → Text} {join : Text → Text} {room : Nat} (items : List Value)
    (readable : Json.ReadableItems room (onWireItems items)) :
    Json.ReadableItems room (spelledByItems spell join items) := by
  match items, readable with
  | [], _ => trivial
  | v :: items, ⟨first, rest⟩ => exact ⟨readable_spelledBy v first, readable_spelledByItems items rest⟩

theorem readable_spelledByFields {spell : Key → Text} {join : Text → Text} {room : Nat} (fields : List (Key × Value))
    (done : List (Text × Json)) (before : Json.ReadableFields room done)
    (readable : Json.ReadableFields room (onWireFields fields)) :
    Json.ReadableFields room (spelledByFields spell join done fields) := by
  match fields, readable with
  | [], _ => exact before
  | (k, v) :: fields, ⟨here, rest⟩ =>
    have first : Json.Readable room (v.spelledBy spell join) := readable_spelledBy v here
    refine readable_spelledByFields fields _ (Json.readableFields_iff.mpr fun u member => ?_) rest
    rcases Dict.mem_set member with rfl | old
    · exact first
    · exact Json.readableFields_iff.mp before u old

end

mutual

/-- What `json.dumps` writes, `json.loads` takes. -/
theorem readable_onWire {room : Nat} (v : Value) : v.onWire.writable room = true → Json.Readable room v.onWire := by
  match v with
  | none | bool _ | float _ | str _ => exact fun _ => trivial
  | int n =>
    intro writable
    rwa [onWire, Json.writable, decide_eq_true_eq] at writable
  | nonFinite x => cases x <;> simp [onWire, Json.Readable, NonFinite.constant]
  | list items =>
    intro writable
    rw [onWire, Json.writable, Bool.and_eq_true, decide_eq_true_eq] at writable
    exact ⟨writable.1, readable_onWireItems items writable.2⟩
  | dict fields =>
    intro writable
    rw [onWire, Json.writable, Bool.and_eq_true, decide_eq_true_eq] at writable
    exact ⟨writable.1, readable_onWireFields fields writable.2⟩

theorem readable_onWireItems {room : Nat} (items : List Value) (writable : Json.writableItems room (onWireItems items) = true) :
    Json.ReadableItems room (onWireItems items) := by
  match items with
  | [] => trivial
  | v :: items =>
    rw [onWireItems, Json.writableItems, Bool.and_eq_true] at writable
    exact ⟨readable_onWire v writable.1, readable_onWireItems items writable.2⟩

theorem readable_onWireFields {room : Nat} (fields : List (Key × Value))
    (writable : Json.writableFields room (onWireFields fields) = true) :
    Json.ReadableFields room (onWireFields fields) := by
  match fields with
  | [] => trivial
  | (k, v) :: fields =>
    rw [onWireFields, Json.writableFields, Bool.and_eq_true] at writable
    exact ⟨readable_onWire v writable.1, readable_onWireFields fields writable.2⟩

end

mutual

/-- Python's dicts have no key twice. -/
theorem distinct_spelledBy {spell : Key → Text} {join : Text → Text} (v : Value) :
    Json.Distinct (v.spelledBy spell join) := by
  match v with
  | none | bool _ | int _ | float _ | nonFinite _ | str _ => trivial
  | list items => exact distinct_spelledByItems items
  | dict fields => exact distinct_spelledByFields fields [] List.nodup_nil trivial

theorem distinct_spelledByItems {spell : Key → Text} {join : Text → Text} (items : List Value) :
    Json.DistinctItems (spelledByItems spell join items) := by
  match items with
  | [] => trivial
  | v :: items => exact ⟨distinct_spelledBy v, distinct_spelledByItems items⟩

theorem distinct_spelledByFields {spell : Key → Text} {join : Text → Text} (fields : List (Key × Value))
    (done : List (Text × Json)) (names : (done.map Prod.fst).Nodup)
    (before : Json.DistinctFields done) :
    Json.Distinct (.obj (spelledByFields spell join done fields)) := by
  match fields with
  | [] => exact ⟨names, before⟩
  | (k, v) :: fields =>
    have first : Json.Distinct (v.spelledBy spell join) := distinct_spelledBy v
    refine distinct_spelledByFields fields _ (Dict.nodup_set names _ _) (Json.distinctFields_iff.mpr fun u member => ?_)
    rcases Dict.mem_set member with rfl | old
    · exact first
    · exact Json.distinctFields_iff.mp before u old

end

mutual

/-- Of a value that was read, `_normalize_keys` makes the same value. -/
theorem normalizeKeys_ofJson {room : Nat} (v : Json) (readable : Json.Readable room v) (distinct : v.Distinct) :
    (ofJson v).normalizeKeys = v := by
  unfold normalizeKeys
  match v, readable, distinct with
  | .null, _, _ | .bool _, _, _ | .int _, _, _ | .float _, _, _ | .str _, _, _ => rfl
  | .constant name, known, _ => rcases known with rfl | rfl | rfl <;> rfl
  | .arr items, ⟨_, inside⟩, distinct => exact congrArg Json.arr (normalizeItems_ofJson items inside distinct)
  | .obj fields, ⟨_, inside⟩, ⟨names, distinct⟩ =>
    exact congrArg Json.obj (normalizeFields_ofJson fields [] inside names distinct)

theorem normalizeItems_ofJson {room : Nat} (items : List Json) (readable : Json.ReadableItems room items)
    (distinct : Json.DistinctItems items) : spelledByItems Key.spelled id (ofJsonItems items) = items := by
  match items, readable, distinct with
  | [], _, _ => rfl
  | v :: items, ⟨first, rest⟩, ⟨clear, later⟩ =>
    have here := normalizeKeys_ofJson v first clear
    rw [ofJsonItems, spelledByItems, normalizeItems_ofJson items rest later, ← normalizeKeys, here]

theorem normalizeFields_ofJson {room : Nat} (fields done : List (Text × Json)) (readable : Json.ReadableFields room fields)
    (names : ((done ++ fields).map Prod.fst).Nodup) (distinct : Json.DistinctFields fields) :
    spelledByFields Key.spelled id done (ofJsonFields fields) = done ++ fields := by
  match fields, readable, distinct with
  | [], _, _ => rw [ofJsonFields, spelledByFields, List.append_nil]
  | (k, v) :: fields, ⟨first, rest⟩, ⟨clear, later⟩ =>
    have here := normalizeKeys_ofJson v first clear
    have absent : k ∉ done.map Prod.fst := by
      intro member
      rw [List.map_append, List.nodup_append] at names
      exact names.2.2 _ member _ List.mem_cons_self rfl
    have grown := Dict.set_of_not_mem absent v
    rw [ofJsonFields, spelledByFields, ← normalizeKeys, here]
    show spelledByFields Key.spelled id (Dict.set done k v) (ofJsonFields fields) = _
    rw [grown, normalizeFields_ofJson fields _ rest (by rwa [List.append_assoc]) later, List.append_assoc]
    rfl

end

mutual

theorem spellable_ofJson {room : Nat} (v : Json) (readable : Json.Readable room v) : (ofJson v).spellable room = true := by
  match v, readable with
  | .null, _ | .bool _, _ | .int _, _ | .float _, _ | .str _, _ | .constant _, _ => rfl
  | .arr items, ⟨more, inside⟩ => simp [ofJson, spellable, more, spellableItems_ofJson items inside]
  | .obj fields, ⟨more, inside⟩ => simp [ofJson, spellable, more, spellableFields_ofJson fields inside]

theorem spellableItems_ofJson {room : Nat} (items : List Json) (readable : Json.ReadableItems room items) :
    spellableItems room (ofJsonItems items) = true := by
  match items, readable with
  | [], _ => rfl
  | v :: items, ⟨first, rest⟩ =>
    simp [ofJsonItems, spellableItems, spellable_ofJson v first, spellableItems_ofJson items rest]

theorem spellableFields_ofJson {room : Nat} (fields : List (Text × Json)) (readable : Json.ReadableFields room fields) :
    spellableFields room (ofJsonFields fields) = true := by
  match fields, readable with
  | [], _ => rfl
  | (k, v) :: fields, ⟨first, rest⟩ =>
    simp [ofJsonFields, spellableFields, Key.short, spellable_ofJson v first, spellableFields_ofJson fields rest]

end

end Value

namespace Value

mutual

/-- The keys in `v`. -/
def keys : Value → List Key
  | list items => keysItems items
  | dict fields => keysFields fields
  | _ => []

def keysItems : List Value → List Key
  | [] => []
  | v :: items => keys v ++ keysItems items

def keysFields : List (Key × Value) → List Key
  | [] => []
  | (k, v) :: fields => k :: (keys v ++ keysFields fields)

end

mutual

/-- Without surrogates, and with keys that `str` and JSON spell alike, a value
is read as it is signed. -/
theorem normalizeKeys_eq_asRead (v : Value) (alike : ∀ k ∈ v.keys, k.spelled = k.onWire)
    (plain : ∀ t ∈ Json.texts v.onWire, t.all scalar = true) :
    v.normalizeKeys = v.asRead ∧ ∀ t ∈ Json.texts v.normalizeKeys, t.all scalar = true := by
  unfold normalizeKeys asRead
  match v with
  | none | bool _ | int _ | float _ | nonFinite _ => exact ⟨rfl, plain⟩
  | str s =>
    have joined := Json.Scan.rejoin_scalar (plain s List.mem_cons_self)
    exact ⟨congrArg Json.str joined.symm, plain⟩
  | list items =>
    have inside := normalizeItems_eq_asRead items alike plain
    exact ⟨congrArg Json.arr inside.1, inside.2⟩
  | dict fields =>
    have inside := normalizeFields_eq_asRead fields [] (fun t none => absurd none List.not_mem_nil) alike plain
    exact ⟨congrArg Json.obj inside.1, inside.2⟩

theorem normalizeItems_eq_asRead (items : List Value) (alike : ∀ k ∈ keysItems items, k.spelled = k.onWire)
    (plain : ∀ t ∈ Json.textsItems (onWireItems items), t.all scalar = true) :
    spelledByItems Key.spelled id items = spelledByItems Key.onWire rejoin items ∧
      ∀ t ∈ Json.textsItems (spelledByItems Key.spelled id items), t.all scalar = true := by
  match items with
  | [] => exact ⟨rfl, plain⟩
  | v :: items =>
    rw [keysItems, List.forall_mem_append] at alike
    rw [onWireItems, Json.textsItems, List.forall_mem_append] at plain
    have here := normalizeKeys_eq_asRead v alike.1 plain.1
    have rest := normalizeItems_eq_asRead items alike.2 plain.2
    rw [normalizeKeys, asRead] at here
    rw [spelledByItems, spelledByItems, Json.textsItems, List.forall_mem_append]
    exact ⟨by rw [here.1, rest.1], here.2, rest.2⟩

theorem normalizeFields_eq_asRead (fields : List (Key × Value)) (done : List (Text × Json))
    (before : ∀ t ∈ Json.textsFields done, t.all scalar = true) (alike : ∀ k ∈ keysFields fields, k.spelled = k.onWire)
    (plain : ∀ t ∈ Json.textsFields (onWireFields fields), t.all scalar = true) :
    spelledByFields Key.spelled id done fields = spelledByFields Key.onWire rejoin done fields ∧
      ∀ t ∈ Json.textsFields (spelledByFields Key.spelled id done fields), t.all scalar = true := by
  match fields with
  | [] => exact ⟨rfl, before⟩
  | (k, v) :: fields =>
    rw [keysFields, List.forall_mem_cons, List.forall_mem_append] at alike
    rw [onWireFields, Json.textsFields, List.forall_mem_cons, List.forall_mem_append] at plain
    have here := normalizeKeys_eq_asRead v alike.2.1 plain.2.1
    rw [normalizeKeys, asRead] at here
    have name : rejoin k.onWire = id k.spelled := by rw [Json.Scan.rejoin_scalar plain.1, alike.1, id]
    rw [spelledByFields, spelledByFields, ← here.1, name]
    refine normalizeFields_eq_asRead fields _ (fun t member => ?_) alike.2.2 plain.2.2
    rw [Json.textsFields_eq_flatMap] at member before
    obtain ⟨u, old, text⟩ := List.mem_flatMap.mp member
    rcases Dict.mem_set old with rfl | old
    · rcases List.mem_cons.mp text with rfl | inside
      · rw [← name, Json.Scan.rejoin_scalar plain.1]
        exact plain.1
      · exact here.2 t inside
    · exact before t (List.mem_flatMap.mpr ⟨u, old, text⟩)

end

end Value

theorem Value.spellableFields_iff {room : Nat} {fields : List (Key × Value)} :
    spellableFields room fields = true ↔ ∀ u ∈ fields, u.1.short = true ∧ u.2.spellable room = true := by
  induction fields with
  | nil => simp [spellableFields]
  | cons u fields ih =>
    obtain ⟨k, v⟩ := u
    simp [spellableFields, ih]

theorem Value.writable_onWireFields_iff {room : Nat} {fields : List (Key × Value)} :
    Json.writableFields room (onWireFields fields) = true ↔ ∀ u ∈ fields, u.2.onWire.writable room = true := by
  induction fields with
  | nil => simp [onWireFields, Json.writableFields]
  | cons u fields ih =>
    obtain ⟨k, v⟩ := u
    simp [onWireFields, Json.writableFields, ih]

section

variable {room : Nat} {v : Value}

theorem Value.readable_normalizeKeys (readable : Json.Readable room v.onWire) : Json.Readable room v.normalizeKeys :=
  readable_spelledBy v readable

theorem Value.readable_asRead (readable : Json.Readable room v.onWire) : Json.Readable room v.asRead :=
  readable_spelledBy v readable

theorem Value.distinct_normalizeKeys : v.normalizeKeys.Distinct := distinct_spelledBy v

theorem Value.distinct_asRead : v.asRead.Distinct := distinct_spelledBy v

/-- What can be written can be signed, if it can be encoded. -/
theorem canonicalJson_of_readable (spellable : v.spellable room = true) (readable : Json.Readable room v.onWire) :
    canonicalJson room v = encode (Json.dumps canonicalLayout v.normalizeKeys) := by
  rw [canonicalJson, spellable, (Value.readable_normalizeKeys readable).writable, Bool.and_self, if_pos rfl]

end

/-- A value that was read is signed as it is. -/
theorem canonicalJson_ofJson {room : Nat} {v : Json} (readable : Json.Readable room v) (distinct : v.Distinct) :
    canonicalJson room (.ofJson v) = encode (Json.dumps canonicalLayout v) := by
  have same := Value.normalizeKeys_ofJson v readable distinct
  rw [canonicalJson, same, Value.spellable_ofJson v readable, readable.writable, Bool.and_self, if_pos rfl]

section

variable {room : Nat} {v w : Json}

/-- In the layout a message is signed in, what is no character of a text is
written in ASCII, and so are a text's control characters. -/
theorem all_canonical {P : Nat → Bool} (prints : ∀ c, Json.ascii c = true → P c = true)
    (others : ∀ c, 32 ≤ c → P c = scalar c) (readable : Json.Readable room v) :
    (Json.dumps canonicalLayout v).all P = (Json.texts v).all (·.all scalar) := by
  have quoted : ∀ t : Text, (canonicalLayout.unsorted.quoted t).all P = t.all scalar := by
    intro t
    have each : ∀ c, (if canonicalLayout.unsorted.escapes c then Json.escaped c else [c]).all P = scalar c := by
      intro c
      split
      · rename_i escapes
        simp only [Json.Layout.escapes, Json.Layout.unsorted, canonicalLayout, Bool.false_eq_true, false_or,
          decide_eq_true_eq] at escapes
        have plain : scalar c = true := by
          simp only [scalar, decide_eq_true_eq]
          omega
        rw [Json.Layout.all_of_ascii prints (Json.ascii_escaped c), plain]
      · rename_i raw
        simp only [Json.Layout.escapes, Json.Layout.unsorted, canonicalLayout, Bool.false_eq_true, false_or,
          decide_eq_true_eq, not_or] at raw
        simp [others c (by omega)]
    have marks : P 34 = true := prints 34 (by decide)
    simp [Json.Layout.quoted, List.all_flatMap, each, marks]
  rw [Json.dumps, Json.Layout.dump_sorted rfl, Json.Layout.all_dump prints rfl _ 0 (readable.sorted v)]
  simp only [quoted, Json.all_texts_sorted]

theorem ascii_scalar (c : Nat) (plain : Json.ascii c = true) : scalar c = true := by
  simp only [Json.ascii, scalar, decide_eq_true_eq] at plain ⊢
  omega

/-- A message without surrogates can be signed. -/
theorem encode_canonical (readable : Json.Readable room v) : encode (Json.dumps canonicalLayout v) =
    if (Json.texts v).all (·.all scalar) then some (encodeUtf8 (Json.dumps canonicalLayout v)) else none := by
  rw [encode, all_canonical ascii_scalar (fun _ _ => rfl) readable]

/-- The bytes a message is signed by are its own, up to the order of members. -/
theorem canonical_inj (v_readable : Json.Readable room v) (w_readable : Json.Readable room w)
    (v_distinct : v.Distinct) (w_distinct : w.Distinct) (v_plain : (Json.texts v).all (·.all scalar) = true)
    (w_plain : (Json.texts w).all (·.all scalar) = true) :
    encodeUtf8 (Json.dumps canonicalLayout v) = encodeUtf8 (Json.dumps canonicalLayout w) ↔ v.sorted = w.sorted := by
  have decodes : ∀ u : Json, Json.Readable room u → (Json.texts u).all (·.all scalar) = true →
      decodeUtf8 (encodeUtf8 (Json.dumps canonicalLayout u)) = some (Json.dumps canonicalLayout u) := by
    intro u readable plain
    have all := all_canonical (P := fun c => scalar c && c ≠ 13) ?_ ?_ readable
    · rw [plain, List.all_eq_true] at all
      refine decodeUtf8_encodeUtf8 (fun c member => ?_) fun return' => ?_
      · have here := all c member
        simp only [scalar, Bool.and_eq_true, decide_eq_true_eq] at here
        exact here.1.imp_right fun high => ⟨by omega, high.2⟩
      · have here := all 13 return'
        cases here
    · intro c plain
      have other : c ≠ 13 := by rintro rfl; cases plain
      simp [ascii_scalar c plain, other]
    · intro c printable
      have other : c ≠ 13 := by omega
      simp [other]
  rw [← Json.dumps_inj (L := canonicalLayout) rfl rfl v_readable w_readable v_distinct w_distinct]
  constructor
  · intro same
    have read := decodes v v_readable v_plain
    rw [same, decodes w w_readable w_plain] at read
    exact (Option.some.inj read).symm
  · intro same
    rw [same]

/-- Values that differ in the order of members only have the same texts. -/
theorem plain_of_sorted (same : v.sorted = w.sorted) (plain : (Json.texts v).all (·.all scalar) = true) :
    (Json.texts w).all (·.all scalar) = true := by
  rw [← Json.all_texts_sorted, ← same, Json.all_texts_sorted, plain]

end

end OpenAvc.Cloud
