import OpenAvc.Data.JsonSorted

/-! Reading JSON with a hook for its objects: the tree that the text holds, every copy of a name
kept, decides what any hook makes of it. -/

namespace Json

/-- How the members of an object are kept while it is read, and what it is at its end. -/
structure Assembly where
  put : List (Text × Json) → Text → Json → List (Text × Json)
  whole : List (Text × Json) → Json

namespace Assembly

/-- Without a hook the members go into a dict. -/
def dict : Assembly := ⟨Dict.set, .obj⟩

/-- `object_pairs_hook` -/
def hooked (hook : List (Text × Json) → Json) : Assembly := ⟨fun pairs k v => pairs ++ [(k, v)], hook⟩

variable (A : Assembly)

def give (v : Json) : List Frame → Scan
  | [] => { mode := .done v }
  | .arr items :: frames => { frames := .arr (v :: items) :: frames, mode := .after }
  | .obj fields k :: frames => { frames := .obj (A.put fields k v) k :: frames, mode := .after }

def close (s : Scan) (c : Nat) : Except LoadError Scan :=
  match s.frames with
  | .arr items :: frames => if c = 93 then .ok (A.give (.arr items.reverse) frames) else .error .value
  | .obj fields _ :: frames => if c = 125 then .ok (A.give (A.whole fields) frames) else .error .value
  | [] => .error .value

/-- One character, outside a number or a name. -/
def plain (budget : Nat) (s : Scan) (c : Nat) : Except LoadError Scan :=
  match s.mode with
  | .item => if c = 93 then A.close s c else Scan.plain budget s c
  | .member => if c = 125 then A.close s c else Scan.plain budget s c
  | .after => if Scan.blank c ∨ c = 44 then Scan.plain budget s c else A.close s c
  | .string false read => if c = 34 then .ok (A.give (.str read.reverse) s.frames) else Scan.plain budget s c
  | _ => Scan.plain budget s c

def step (budget : Nat) (s : Scan) (c : Nat) : Except LoadError Scan :=
  match s.mode with
  | .lexeme read =>
    if Scan.inLexeme c then .ok { s with mode := .lexeme (c :: read) }
    else match Scan.named read.reverse with
      | some v => A.plain budget (A.give v s.frames) c
      | none => .error .value
  | _ => A.plain budget s c

/-- `json.loads` of a text. -/
def loads (budget : Nat) (t : Text) : Except LoadError Json :=
  if t.head? = some 0xfeff then .error .value
  else do (← t.foldlM (A.step budget) {}).finish

theorem give_dict (v : Json) (frames : List Frame) : dict.give v frames = Scan.give v frames := by
  cases frames with
  | nil => rfl
  | cons frame frames => cases frame <;> rfl

theorem close_dict (s : Scan) (c : Nat) : dict.close s c = Scan.close s c := by
  obtain ⟨frames, mode⟩ := s
  cases frames with
  | nil => rfl
  | cons frame frames =>
    cases frame with
    | arr items => simp only [close, Scan.close, give_dict]
    | obj fields k =>
      simp only [close, Scan.close, give_dict]
      rfl

theorem plain_dict (budget : Nat) (s : Scan) (c : Nat) : dict.plain budget s c = Scan.plain budget s c := by
  obtain ⟨frames, mode⟩ := s
  have notBlank : Scan.blank 93 = false ∧ Scan.blank 125 = false := ⟨rfl, rfl⟩
  cases mode with
  | item =>
    simp only [plain, Scan.plain]
    split
    · rename_i closing
      rw [close_dict, closing, if_neg (by simp [notBlank.1])]
    · rfl
  | member =>
    simp only [plain, Scan.plain]
    split
    · rename_i closing
      rw [close_dict, closing, if_neg (by simp [notBlank.2])]
    · rfl
  | after =>
    simp only [plain, Scan.plain]
    split
    · rfl
    · rename_i other
      obtain ⟨visible, more⟩ := not_or.mp other
      rw [close_dict, if_neg visible, if_neg more]
  | string isKey read =>
    cases isKey with
    | true => rfl
    | false =>
      simp only [plain, Scan.plain]
      split
      · rw [give_dict]
        rfl
      · rfl
  | _ => rfl

theorem step_dict (budget : Nat) : dict.step budget = Scan.step budget := by
  funext s c
  obtain ⟨frames, mode⟩ := s
  cases mode with
  | lexeme read =>
    unfold step Scan.step
    cases inside : Scan.inLexeme c with
    | true => rfl
    | false =>
      cases reads : Scan.named read.reverse with
      | none => simp only [reads]
      | some v => simp only [reads, give_dict, plain_dict]
  | _ => simp only [step, Scan.step, plain_dict]

theorem loads_dict (budget : Nat) (t : Text) : dict.loads budget t = Json.loads budget t := by
  unfold loads Json.loads
  rw [step_dict]

end Assembly

/-- Neither an array nor an object. -/
def flat : Json → Bool
  | .arr _ => false
  | .obj _ => false
  | _ => true

theorem number_flat {t : Text} {v : Json} (reads : Scan.number t = some v) : v.flat = true := by
  unfold Scan.number at reads
  dsimp only at reads
  repeat' split at reads
  all_goals cases reads
  all_goals rfl

theorem named_flat {t : Text} {v : Json} (reads : Scan.named t = some v) : v.flat = true := by
  unfold Scan.named at reads
  repeat' split at reads
  all_goals first | exact number_flat reads | (cases reads; rfl)

/-- What becomes of a tree when the members of its objects are kept another way. -/
structure Assembly.Change (A B : Assembly) where
  value : Json → Json
  members : List (Text × Json) → List (Text × Json)
  empty : members [] = []
  put : ∀ fields k v, members (A.put fields k v) = B.put (members fields) k (value v)
  whole : ∀ fields, value (A.whole fields) = B.whole (members fields)
  arr : ∀ items, value (.arr items) = .arr (items.map value)
  flat : ∀ v, v.flat = true → value v = v

namespace Assembly.Change

variable {A B : Assembly} (C : A.Change B)

def frame : Frame → Frame
  | .arr items => .arr (items.map C.value)
  | .obj fields k => .obj (C.members fields) k

def mode : Mode → Mode
  | .done v => .done (C.value v)
  | m => m

def scan (s : Scan) : Scan :=
  ⟨s.frames.map C.frame, C.mode s.mode⟩

theorem scan_give (v : Json) (frames : List Frame) : C.scan (A.give v frames) = B.give (C.value v) (frames.map C.frame) := by
  cases frames with
  | nil => rfl
  | cons frame frames =>
    cases frame with
    | arr items => rfl
    | obj fields k =>
      simp only [give, scan, mode, List.map_cons, frame, C.put]

theorem close_scan (s : Scan) (c : Nat) : B.close (C.scan s) c = (A.close s c).map C.scan := by
  obtain ⟨frames, m⟩ := s
  cases frames with
  | nil => rfl
  | cons outer frames =>
    cases outer with
    | arr items =>
      have given := C.scan_give (.arr items.reverse) frames
      rw [C.arr, List.map_reverse] at given
      by_cases closing : c = 93
      · simp only [close, scan, List.map_cons, frame, if_pos closing]
        exact congrArg Except.ok given.symm
      · simp only [close, scan, List.map_cons, frame, if_neg closing]
        rfl
    | obj fields k =>
      have given := C.scan_give (A.whole fields) frames
      rw [C.whole] at given
      by_cases closing : c = 125
      · simp only [close, scan, List.map_cons, frame, if_pos closing]
        exact congrArg Except.ok given.symm
      · simp only [close, scan, List.map_cons, frame, if_neg closing]
        rfl

theorem start_scan (budget : Nat) (s : Scan) (c : Nat) :
    Scan.start budget (C.scan s) c = (Scan.start budget s c).map C.scan := by
  have deep : (C.scan s).frames.length = s.frames.length := List.length_map _
  have opened : C.frame (.obj [] []) = .obj [] [] := congrArg (Frame.obj · []) C.empty
  unfold Scan.start
  rw [deep]
  split
  · rfl
  · split
    · split <;> rfl
    · split
      · split
        · rfl
        · simp only [Except.map, scan, List.map_cons, opened]
          rfl
      · split <;> rfl

/-- Where no value ends, both do what the scanner does without a hook. -/
theorem scanner_scan (budget : Nat) (s : Scan) (c : Nat) (opening : s.mode = .item → c ≠ 93)
    (member : s.mode = .member → c ≠ 125) (between : s.mode = .after → Scan.blank c = true ∨ c = 44) (quote : ∀ read, s.mode = .string false read → c ≠ 34) :
    Scan.plain budget (C.scan s) c = (Scan.plain budget s c).map C.scan := by
  obtain ⟨frames, m⟩ := s
  have started := C.start_scan budget ⟨frames, m⟩ c
  cases m with
  | value =>
    simp only [Scan.plain, scan, mode] at started ⊢
    split
    · rfl
    · exact started
  | item =>
    simp only [Scan.plain, scan, mode] at started ⊢
    rw [if_neg (opening rfl), if_neg (opening rfl)]
    split
    · rfl
    · exact started
  | member =>
    simp only [Scan.plain, scan, mode]
    rw [if_neg (member rfl), if_neg (member rfl)]
    split
    · rfl
    · split <;> rfl
  | key =>
    simp only [Scan.plain, scan, mode]
    split
    · rfl
    · split <;> rfl
  | colon k =>
    simp only [Scan.plain, scan, mode]
    split
    · rfl
    · cases frames with
      | nil => rfl
      | cons outer frames =>
        cases outer with
        | arr items => rfl
        | obj fields k' =>
          simp only [List.map_cons, frame]
          split <;> rfl
  | after =>
    simp only [Scan.plain, scan, mode]
    split
    · rfl
    · rename_i visible
      rw [if_pos ((between rfl).resolve_left visible), if_pos ((between rfl).resolve_left visible)]
      cases frames with
      | nil => rfl
      | cons outer frames => cases outer <;> rfl
  | done v =>
    simp only [Scan.plain, scan, mode]
    split <;> rfl
  | lexeme read => rfl
  | string isKey read =>
    cases isKey with
    | true =>
      simp only [Scan.plain, scan, mode]
      repeat' split
      all_goals first | rfl | contradiction
    | false =>
      simp only [Scan.plain, scan, mode]
      rw [if_neg (quote read rfl), if_neg (quote read rfl)]
      repeat' split
      all_goals rfl
  | escape isKey read =>
    simp only [Scan.plain, scan, mode]
    repeat' split
    all_goals rfl
  | hex isKey read left code =>
    simp only [Scan.plain, scan, mode]
    repeat' split
    all_goals rfl

theorem plain_scan (budget : Nat) (s : Scan) (c : Nat) : B.plain budget (C.scan s) c = (A.plain budget s c).map C.scan := by
  obtain ⟨frames, m⟩ := s
  have closed := C.close_scan ⟨frames, m⟩ c
  have scanned := C.scanner_scan budget ⟨frames, m⟩ c
  cases m with
  | item =>
    unfold plain
    by_cases closing : c = 93
    · simp only [scan, mode, if_pos closing] at closed ⊢
      exact closed
    · simp only [scan, mode, if_neg closing] at scanned ⊢
      exact scanned (fun _ => closing) nofun nofun nofun
  | member =>
    unfold plain
    by_cases closing : c = 125
    · simp only [scan, mode, if_pos closing] at closed ⊢
      exact closed
    · simp only [scan, mode, if_neg closing] at scanned ⊢
      exact scanned nofun (fun _ => closing) nofun nofun
  | after =>
    unfold plain
    by_cases more : Scan.blank c ∨ c = 44
    · simp only [scan, mode, if_pos more] at scanned ⊢
      exact scanned nofun nofun (fun _ => more) nofun
    · simp only [scan, mode, if_neg more] at closed ⊢
      exact closed
  | string isKey read =>
    cases isKey with
    | true => exact scanned nofun nofun nofun nofun
    | false =>
      unfold plain
      by_cases closing : c = 34
      · have given := C.scan_give (.str read.reverse) frames
        rw [C.flat _ rfl] at given
        simp only [scan, mode, if_pos closing]
        exact congrArg Except.ok given.symm
      · simp only [scan, mode, if_neg closing] at scanned ⊢
        exact scanned nofun nofun nofun fun _ _ => closing
  | _ => exact scanned nofun nofun nofun nofun

theorem step_scan (budget : Nat) (s : Scan) (c : Nat) : B.step budget (C.scan s) c = (A.step budget s c).map C.scan := by
  obtain ⟨frames, m⟩ := s
  have outside := C.plain_scan budget ⟨frames, m⟩ c
  cases m with
  | lexeme read =>
    simp only [step, scan, mode]
    split
    · rfl
    · cases reads : Scan.named read.reverse with
      | none => rfl
      | some v =>
        have given := C.scan_give v frames
        rw [C.flat v (named_flat reads)] at given
        have next := C.plain_scan budget (A.give v frames) c
        rw [given] at next
        exact next
  | _ => exact outside

theorem run_scan (budget : Nat) (t : Text) (s : Scan) :
    t.foldlM (B.step budget) (C.scan s) = (t.foldlM (A.step budget) s).map C.scan := by
  induction t generalizing s with
  | nil => rfl
  | cons c t ih =>
    rw [List.foldlM_cons, List.foldlM_cons, C.step_scan]
    cases next : A.step budget s c with
    | error e => rfl
    | ok s' => exact ih s'

theorem finish_scan (s : Scan) : (C.scan s).finish = s.finish.map C.value := by
  obtain ⟨frames, m⟩ := s
  cases m with
  | lexeme read =>
    cases frames with
    | cons outer frames => rfl
    | nil =>
      simp only [Scan.finish, scan, mode, List.map_nil]
      cases reads : Scan.named read.reverse with
      | none => rfl
      | some v => exact congrArg Except.ok (C.flat v (named_flat reads)).symm
  | _ => rfl

/-- What is read under one way of keeping members is what the other reads, changed. -/
theorem loads_eq (budget : Nat) (t : Text) : B.loads budget t = (A.loads budget t).map C.value := by
  unfold loads
  split
  · rfl
  · have run := C.run_scan budget t {}
    have start : C.scan {} = {} := rfl
    rw [start] at run
    rw [run]
    cases read : t.foldlM (A.step budget) {} with
    | error e => rfl
    | ok s => exact C.finish_scan s

end Assembly.Change

mutual

/-- A tree of pairs as a hook makes it, the innermost objects first. -/
def rebuild (hook : List (Text × Json) → Json) : Json → Json
  | .arr items => .arr (rebuildItems hook items)
  | .obj pairs => hook (rebuildPairs hook pairs)
  | v => v

def rebuildItems (hook : List (Text × Json) → Json) : List Json → List Json
  | [] => []
  | v :: items => rebuild hook v :: rebuildItems hook items

def rebuildPairs (hook : List (Text × Json) → Json) : List (Text × Json) → List (Text × Json)
  | [] => []
  | (k, v) :: pairs => (k, rebuild hook v) :: rebuildPairs hook pairs

end

theorem rebuildItems_eq_map (hook : List (Text × Json) → Json) (items : List Json) :
    rebuildItems hook items = items.map (rebuild hook) := by
  induction items with
  | nil => rfl
  | cons v items ih => rw [rebuildItems, ih, List.map_cons]

theorem rebuildPairs_eq_map (hook : List (Text × Json) → Json) (pairs : List (Text × Json)) :
    rebuildPairs hook pairs = pairs.map fun u => (u.1, rebuild hook u.2) := by
  induction pairs with
  | nil => rfl
  | cons u pairs ih =>
    obtain ⟨k, v⟩ := u
    rw [rebuildPairs, ih, List.map_cons]

theorem rebuild_flat (hook : List (Text × Json) → Json) {v : Json} (flat : v.flat = true) : rebuild hook v = v := by
  cases v with
  | arr items => cases flat
  | obj pairs => cases flat
  | _ => rfl

/-- The tree of a text, with every member of its objects as it comes. -/
def loadsPairs (budget : Nat) (t : Text) : Except LoadError Json :=
  (Assembly.hooked .obj).loads budget t

/-- `json.loads(t, object_pairs_hook=hook)` -/
def loadsHooked (hook : List (Text × Json) → Json) (budget : Nat) (t : Text) : Except LoadError Json :=
  (Assembly.hooked hook).loads budget t

/-- `dict(pairs)` -/
def ofPairs (pairs : List (Text × Json)) : List (Text × Json) :=
  pairs.foldl (fun d u => Dict.set d u.1 u.2) []

/-- The tree of pairs handed to the hook. -/
def Assembly.Change.hook (hook : List (Text × Json) → Json) : (Assembly.hooked .obj).Change (Assembly.hooked hook) where
  value := rebuild hook
  members := rebuildPairs hook
  empty := rfl
  put pairs k v := by
    rw [rebuildPairs_eq_map, rebuildPairs_eq_map]
    exact List.map_append
  whole _ := rfl
  arr items := by rw [rebuild, rebuildItems_eq_map]
  flat _ := rebuild_flat hook

/-- The tree of pairs put into dicts. -/
def Assembly.Change.dict : (Assembly.hooked .obj).Change Assembly.dict where
  value := rebuild fun pairs => .obj (ofPairs pairs)
  members pairs := ofPairs (rebuildPairs (fun pairs => .obj (ofPairs pairs)) pairs)
  empty := rfl
  put pairs k v := by
    simp only [rebuildPairs_eq_map, Assembly.hooked, Assembly.dict, ofPairs, List.map_append, List.foldl_append]
    rfl
  whole _ := rfl
  arr items := by rw [rebuild, rebuildItems_eq_map]
  flat _ := rebuild_flat _

theorem loadsHooked_eq (hook : List (Text × Json) → Json) (budget : Nat) (t : Text) :
    loadsHooked hook budget t = (loadsPairs budget t).map (rebuild hook) :=
  (Assembly.Change.hook hook).loads_eq budget t

/-- `json.loads` without a hook is the hook `dict`. -/
theorem loads_eq_pairs (budget : Nat) (t : Text) :
    loads budget t = (loadsPairs budget t).map (rebuild fun pairs => .obj (ofPairs pairs)) := by
  rw [← Assembly.loads_dict]
  exact Assembly.Change.dict.loads_eq budget t

end Json
