import OpenAvc.Data.Utf8
import OpenAvc.State.Order

/-! `StatePersister`: variables whose values are kept in `state.json`. -/

namespace OpenAvc.State

/-- `_flush_task`: none, or one that is done; one that sleeps; one that is cancelled and not done yet. -/
inductive FlushTask
  | none
  | waiting
  | cancelled
  deriving DecidableEq

/-- The persister with its store and what `state.json` holds, if it is there. -/
structure Persister where
  state : StateStore
  file : Option (List (Text × Value)) := none
  persistentKeys : List Text := []
  dirty : Bool := false
  subIds : List Text := []
  flushTask : FlushTask := .none
  stopped : Bool := false

/-- `flushes` tells whether there is a loop that the debounced flush can run on. -/
inductive PersisterLabel
  | write (op : Op) (flushes : Bool)
  | start (persistentKeys : List Text)
  | updateKeys (persistentKeys : List Text)
  | flush
  | debounced
  | unwound
  | stop

/-- The text can be encoded as UTF-8. -/
def encodable (t : Text) : Bool :=
  t.all fun c => c < 0xd800 ∨ 0xdfff < c

/-- The value can be written to the file. -/
def persistable : Value → Bool
  | .int n => n.natAbs < 10 ^ Json.Scan.intLimit
  | .str t => encodable t
  | _ => true

namespace Persister

/-- `_write`. What cannot be written is logged, and the file stays as it is. -/
def writeFile (s : Persister) : Persister :=
  let data := s.persistentKeys.filterMap fun key => (s.state.store.lookup key).map fun value => (key, value)
  if data.all fun u => encodable u.1 && persistable u.2 then { s with file := some data, dirty := false } else s

def flush (s : Persister) : Persister :=
  if s.dirty then s.writeFile else s

/-- `_flush_task.cancel()` -/
def cancelFlush (s : Persister) : Persister :=
  { s with flushTask := if s.flushTask = .waiting then .cancelled else s.flushTask }

/-- `_on_state_change` -/
def onStateChange (s : Persister) (flushes : Bool) : Persister :=
  { s with dirty := true, flushTask := if s.flushTask = .none ∧ flushes then .waiting else s.flushTask }

def start (s : Persister) (persistentKeys : List Text) : Persister :=
  { s with persistentKeys, stopped := false, subIds := s.subIds ++ persistentKeys }

/-- Does a key drop out of the set? -/
def removes (s : Persister) (persistentKeys : List Text) : Bool :=
  s.persistentKeys.any fun key => !persistentKeys.contains key

def updateKeys (s : Persister) (persistentKeys : List Text) : Persister :=
  let s := s.flush.cancelFlush
  let s' := { s with persistentKeys, subIds := persistentKeys }
  if s.removes persistentKeys && s.file.isSome then s'.writeFile else s'

def stop (s : Persister) : Persister :=
  { { s with stopped := true }.flush.cancelFlush with subIds := [] }

/-- What a start finds in `state.json`. -/
def load (s : Persister) : List (Text × Value) :=
  s.file.getD []

variable (normcase : Text → Text)

/-- Is there a subscription to the key? -/
def hears (s : Persister) (key : Text) : Bool :=
  s.subIds.any fun pattern => (classifyPattern pattern).finds normcase key pattern

/-- A call of `set`, `set_batch` or `delete`. -/
def write (s : Persister) (op : Op) (flushes : Bool) : Persister :=
  let (state, changes) := s.state.write op
  let s' := { s with state }
  if changes.any fun change => s.hears normcase change.key then s'.onStateChange flushes else s'

def next (s : Persister) : PersisterLabel → Option Persister
  | .write op flushes => some (s.write normcase op flushes)
  | .start persistentKeys => some (s.start persistentKeys)
  | .updateKeys persistentKeys => some (s.updateKeys persistentKeys)
  | .flush => some s.flush
  | .debounced =>
    if s.flushTask = .waiting then
      let s' := { s with flushTask := .none }
      some (if s.dirty && !s.stopped then s'.writeFile else s')
    else none
  | .unwound => if s.flushTask = .cancelled then some { s with flushTask := .none } else none
  | .stop => some s.stop

/-- A persister that has just been made, for any store and any file. -/
def machine : Run.Machine Persister PersisterLabel where
  init s := s.persistentKeys = [] ∧ s.dirty = false ∧ s.subIds = [] ∧ s.flushTask = .none ∧ s.stopped = false
  next := next normcase

/-- `flush`, `update_keys` and `stop` -/
def commits : PersisterLabel → Bool
  | .flush => true
  | .updateKeys _ => true
  | .stop => true
  | _ => false

/-- The file holds the persistent keys that are in the store, and nothing else. -/
def Exact (s : Persister) : Prop :=
  ∀ key, s.load.lookup key = if key ∈ s.persistentKeys then s.state.store.lookup key else none

/-- The keys and their values can be written. -/
def fits (s : Persister) (keys : List Text) : Bool :=
  keys.all fun key => encodable key && (s.state.store.lookup key).all persistable

/-- There is something to keep, or nothing in the file: so it is from a start on. -/
def begun (s : Persister) : Bool :=
  !s.persistentKeys.isEmpty || s.load.isEmpty

/-- Persistent keys change to what can be written, and while they are watched. What is
in the file at a start is what is in the store. A key that becomes persistent is not
in the store, unless another one ceases to be persistent and there is a file. Nothing
is committed before the start. -/
def keeps (s : Persister) : PersisterLabel → Bool
  | .write op _ => (s.state.write op).2.all fun change =>
    !s.persistentKeys.contains change.key || (s.hears normcase change.key && persistable change.new)
  | .start keys => s.fits keys && keys.all (fun key => s.load.lookup key = s.state.store.lookup key) &&
    s.load.all fun u => keys.contains u.1
  | .updateKeys keys => (s.dirty || s.begun) && s.fits keys && ((s.removes keys && (s.file.isSome || s.dirty)) ||
    keys.all fun key => s.persistentKeys.contains key || (s.state.store.lookup key).isNone)
  | .flush => s.dirty || s.begun
  | .stop => s.dirty || s.begun
  | _ => true

variable {normcase} {s s' : Persister}

theorem lookup_data (d : List (Text × Value)) (keys : List Text) (k : Text) :
    (keys.filterMap fun key => (d.lookup key).map fun value => (key, value)).lookup k =
      if k ∈ keys then d.lookup k else none := by
  induction keys with
  | nil => rfl
  | cons key keys ih =>
    by_cases here : k = key
    · subst here
      cases found : d.lookup k with
      | none => simp [found, ih]
      | some value => simp [found]
    · cases found : d.lookup key with
      | none => simp [found, ih, here]
      | some value => simp [found, ih, here, List.lookup_cons, beq_eq_false_iff_ne.mpr here]

/-- What holds in every state: the keys can be written, and a file that no change has
outdated is exact. -/
structure Sound (s : Persister) : Prop where
  fits : s.fits s.persistentKeys = true
  exact : s.dirty = false → s.begun = true → s.Exact

theorem fits_iff {keys : List Text} : s.fits keys = true ↔
    ∀ key ∈ keys, encodable key = true ∧ ∀ v ∈ s.state.store.lookup key, persistable v = true := by
  simp only [Persister.fits, List.all_eq_true, Bool.and_eq_true, Option.all_eq_true_iff_get]
  refine forall₂_congr fun key _ => and_congr Iff.rfl ?_
  cases s.state.store.lookup key <;> simp

theorem writeFile_eq (fits : s.fits s.persistentKeys = true) : s.writeFile = { s with
    file := some (s.persistentKeys.filterMap fun key => (s.state.store.lookup key).map fun value => (key, value))
    dirty := false } := by
  refine if_pos (List.all_eq_true.mpr fun u member => ?_)
  obtain ⟨key, there, found⟩ := List.mem_filterMap.mp member
  obtain ⟨v, value, rfl⟩ := Option.map_eq_some_iff.mp found
  obtain ⟨encodes, persists⟩ := fits_iff.mp fits key there
  exact Bool.and_eq_true_iff.mpr ⟨encodes, persists v value⟩

theorem writeFile_exact (fits : s.fits s.persistentKeys = true) : s.writeFile.Exact := by
  rw [writeFile_eq fits]
  exact lookup_data s.state.store s.persistentKeys

/-- After a flush, nothing is left to write. -/
theorem Sound.flush (sound : s.Sound) (begun : s.dirty = true ∨ s.begun = true) : s.flush.Sound ∧ s.flush.Exact ∧ s.flush.state = s.state ∧
    s.flush.persistentKeys = s.persistentKeys ∧ s.flush.file.isSome = (s.file.isSome || s.dirty) := by
  have written := writeFile_exact sound.fits
  have same := writeFile_eq sound.fits
  unfold Persister.flush
  split
  · rename_i dirty
    rw [same] at written ⊢
    exact ⟨⟨sound.fits, fun _ _ => written⟩, written, rfl, rfl, by rw [dirty]; simp⟩
  · rename_i clean
    have exact := sound.exact (Bool.eq_false_iff.mpr clean) (begun.resolve_left clean)
    exact ⟨sound, exact, rfl, rfl, by rw [Bool.eq_false_iff.mpr clean]; simp⟩

theorem Sound.updateKeys (sound : s.Sound) {keys : List Text} (keeps : s.keeps normcase (.updateKeys keys) = true) :
    (s.updateKeys keys).Sound ∧ (s.updateKeys keys).Exact := by
  simp only [Persister.keeps, Bool.and_eq_true, Bool.or_eq_true, List.all_eq_true] at keeps
  obtain ⟨⟨begun, fits⟩, added⟩ := keeps
  obtain ⟨_, exact, state, persistentKeys, there⟩ := sound.flush begun
  have fits' : ({ s.flush.cancelFlush with persistentKeys := keys, subIds := keys } : Persister).fits keys = true := by
    rw [fits_iff] at fits ⊢
    show ∀ key ∈ keys, encodable key = true ∧ ∀ v ∈ s.flush.state.store.lookup key, persistable v = true
    rw [state]
    exact fits
  have removes : s.flush.cancelFlush.removes keys = s.removes keys := by
    show s.flush.persistentKeys.any _ = s.persistentKeys.any _
    rw [persistentKeys]
  have isSome : s.flush.cancelFlush.file.isSome = (s.file.isSome || s.dirty) := there
  rw [Persister.updateKeys]
  by_cases prunes : s.removes keys && (s.file.isSome || s.dirty)
  · have written := writeFile_exact fits'
    have same := writeFile_eq fits'
    show (if (s.flush.cancelFlush.removes keys && s.flush.cancelFlush.file.isSome) = true then _ else _ : Persister).Sound ∧
      (if (s.flush.cancelFlush.removes keys && s.flush.cancelFlush.file.isSome) = true then _ else _ : Persister).Exact
    rw [removes, isSome, if_pos prunes]
    refine ⟨⟨?_, fun _ _ => written⟩, written⟩
    rw [same]
    exact fits'
  · have absent := added.resolve_left fun both => prunes (by simpa using both)
    have here : ({ s.flush.cancelFlush with persistentKeys := keys, subIds := keys } : Persister).Exact := by
      intro key
      have before := exact key
      rw [persistentKeys, state] at before
      show s.flush.load.lookup key = if key ∈ keys then s.flush.state.store.lookup key else none
      rw [before, state]
      by_cases old : key ∈ s.persistentKeys <;> by_cases now : key ∈ keys
      · rw [if_pos old, if_pos now]
      · -- There is no file that it could be in.
        have gone : s.removes keys = true := List.any_eq_true.mpr ⟨key, old, by simpa using now⟩
        have none : s.flush.file = none := by
          rw [← Option.not_isSome_iff_eq_none, there]
          exact fun some_ => prunes (by rw [gone, some_]; rfl)
        rw [← before, Persister.load, none, if_neg now]
        rfl
      · rw [if_neg old, if_pos now]
        have fresh := absent key now
        rw [List.contains_iff_mem] at fresh
        exact (Option.isNone_iff_eq_none.mp (fresh.resolve_left old)).symm
      · rw [if_neg old, if_neg now]
    show (if (s.flush.cancelFlush.removes keys && s.flush.cancelFlush.file.isSome) = true then _ else _ : Persister).Sound ∧
      (if (s.flush.cancelFlush.removes keys && s.flush.cancelFlush.file.isSome) = true then _ else _ : Persister).Exact
    rw [removes, isSome, if_neg prunes]
    exact ⟨⟨fits', fun _ _ => here⟩, here⟩

theorem Sound.write (sound : s.Sound) {op : Op} {flushes : Bool} (keeps : s.keeps normcase (.write op flushes) = true) :
    (s.write normcase op flushes).Sound := by
  have wrote := StateStore.wrote_write s.state op
  rw [Persister.keeps] at keeps
  rw [Persister.write]
  obtain ⟨⟨state, changes⟩, written⟩ : ∃ result, s.state.write op = result := ⟨_, rfl⟩
  rw [written] at wrote keeps ⊢
  have keeps : ∀ change ∈ changes, change.key ∈ s.persistentKeys →
      s.hears normcase change.key = true ∧ persistable change.new = true := fun change member there => by
    have both := List.all_eq_true.mp keeps change member
    rw [Bool.or_eq_true, Bool.and_eq_true] at both
    exact both.resolve_left (by simpa using there)
  have fits : ({ s with state } : Persister).fits s.persistentKeys = true := by
    refine fits_iff.mpr fun key there => ⟨(fits_iff.mp sound.fits key there).1, fun v found => ?_⟩
    cases last : (ofKey key changes).getLast? with
    | none =>
      have untouched : ∀ change ∈ changes, change.key ≠ key := fun change member same => by
        have inside : change ∈ ofKey key changes := List.mem_filter.mpr ⟨member, decide_eq_true same⟩
        rw [List.getLast?_eq_none_iff.mp last] at inside
        cases inside
      refine (fits_iff.mp sound.fits key there).2 v ?_
      rw [← wrote.others key untouched]
      exact found
    | some change =>
      have new : change.new = state.get key := (wrote.leads key).last last
      obtain ⟨member, same⟩ := List.mem_filter.mp (List.mem_of_getLast? last)
      obtain rfl := of_decide_eq_true same
      have value : state.get change.key = v := by
        rw [StateStore.get, show state.store.lookup change.key = some v from found]
        rfl
      rw [← value, ← new]
      exact (keeps change member there).2
  show (if (changes.any fun change => s.hears normcase change.key) = true then _ else _ : Persister).Sound
  split
  · exact ⟨fits, nofun⟩
  · rename_i unheard
    refine ⟨fits, fun clean begun key => ?_⟩
    have before := sound.exact clean begun key
    show s.load.lookup key = if key ∈ s.persistentKeys then state.store.lookup key else none
    rw [before]
    split
    · rename_i there
      refine (wrote.others key fun change member same => unheard ?_).symm
      subst same
      exact List.any_eq_true.mpr ⟨change, member, (keeps change member there).1⟩
    · rfl

theorem Sound.step (sound : s.Sound) {l : PersisterLabel} (keeps : s.keeps normcase l = true)
    (run : s.next normcase l = some s') : s'.Sound ∧ (commits l = true → s'.Exact) := by
  cases l with
  | write op flushes =>
    cases run
    exact ⟨sound.write keeps, nofun⟩
  | start keys =>
    cases run
    simp only [Persister.keeps, Bool.and_eq_true, List.all_eq_true, decide_eq_true_eq] at keeps
    obtain ⟨⟨fits, same⟩, inside⟩ := keeps
    refine ⟨⟨fits, fun _ _ key => ?_⟩, nofun⟩
    show s.load.lookup key = if key ∈ keys then s.state.store.lookup key else none
    split
    · rename_i there
      exact same key there
    · rename_i outside
      exact List.lookup_eq_none_of_forall fun u member here =>
        outside (here ▸ List.contains_iff_mem.mp (inside u member))
  | updateKeys keys =>
    cases run
    have updated := sound.updateKeys keeps
    exact ⟨updated.1, fun _ => updated.2⟩
  | flush =>
    cases run
    have flushed := sound.flush (Bool.or_eq_true_iff.mp keeps)
    exact ⟨flushed.1, fun _ => flushed.2.1⟩
  | debounced =>
    simp only [Persister.next, Option.ite_none_right_eq_some, Option.some.injEq] at run
    rw [← run.2]
    refine ⟨?_, nofun⟩
    have fits : ({ s with flushTask := .none } : Persister).fits s.persistentKeys = true := sound.fits
    split
    · have written := writeFile_exact fits
      rw [writeFile_eq fits] at written ⊢
      exact ⟨fits, fun _ _ => written⟩
    · exact ⟨fits, sound.exact⟩
  | unwound =>
    simp only [Persister.next, Option.ite_none_right_eq_some, Option.some.injEq] at run
    rw [← run.2]
    exact ⟨⟨sound.fits, sound.exact⟩, nofun⟩
  | stop =>
    cases run
    have stopping : ({ s with stopped := true } : Persister).Sound := ⟨sound.fits, sound.exact⟩
    obtain ⟨⟨fits, clean⟩, exact, _⟩ := stopping.flush (Bool.or_eq_true_iff.mp keeps)
    exact ⟨⟨fits, clean⟩, fun _ => exact⟩

/-- After each `flush`, `update_keys` and `stop`, the file has the persistent keys with
their values, if the calls and the changes before kept what they rely on. -/
theorem persisted_exact (reach : Run.Reach (machine normcase) (fun s l => s.keeps normcase l = true) s)
    {l : PersisterLabel} (returns : commits l = true) (keeps : s.keeps normcase l = true)
    (run : s.next normcase l = some s') : s'.Exact := by
  have start : ∀ s, (machine normcase).init s → s.Sound := by
    rintro s ⟨keys, _⟩
    refine ⟨by rw [keys]; rfl, fun _ begun key => ?_⟩
    have empty : s.load = [] := by simpa [Persister.begun, keys] using begun
    rw [empty, keys]
    rfl
  have sound : s.Sound := reach.invariant start fun _ _ _ _ sound keeps run => (sound.step keeps run).1
  exact (sound.step keeps run).2 returns

section Runs

def mode : Text := text "var.mode"

def scene : Text := text "var.scene"

/-- A store and a file that agree. -/
def restored : Persister where
  state := { store := [(mode, .str (text "movie"))] }
  file := some [(mode, .str (text "movie"))]

/-- A second variable becomes persistent before it has a value. -/
theorem persisted_exact_scene : ∃ s' : Persister, s'.Exact ∧ s'.load.length = 2 := by
  have run : ∃ s, (machine id).run (fun s l => s.keeps id l = true) restored [.start [mode], .write (.set mode (.flat .none) (text "ui")) true,
      .updateKeys [mode, scene], .unwound, .write (.set scene (.flat (.bool true)) (text "ui")) true, .debounced,
      .write (.set mode (.flat (.str (text "talk"))) (text "ui")) true] = some s ∧ s.keeps id .stop = true ∧
      s.stop.load.length = 2 := ⟨_, rfl, rfl, rfl⟩
  obtain ⟨s, run, keeps, two⟩ := run
  have reach : Run.Reach (machine id) (fun s l => s.keeps id l = true) s := .run (.init ⟨rfl, rfl, rfl, rfl, rfl⟩) run
  exact ⟨s.stop, @persisted_exact id s _ reach .stop rfl keeps rfl, two⟩

/-- A variable that has a value when it becomes persistent is not written until it changes. -/
theorem not_persisted : ¬∀ (s s' : Persister) (l : PersisterLabel), Run.Reach (machine id) Run.always s →
    commits l = true → s.next id l = some s' → s'.Exact := by
  intro all
  have run : ∃ s, (machine id).run Run.always { state := {} } [.start [], .write (.set mode (.flat (.bool true)) (text "ui")) true] =
      some s ∧ (s.updateKeys [mode]).load = [] ∧ (s.updateKeys [mode]).persistentKeys = [mode] ∧
      (s.updateKeys [mode]).state.store = [(mode, .bool true)] := ⟨_, rfl, rfl, rfl, rfl⟩
  obtain ⟨s, run, file, keys, store⟩ := run
  have exact := all s _ (.updateKeys [mode]) (.run (.init ⟨rfl, rfl, rfl, rfl, rfl⟩) run) rfl rfl mode
  rw [file, keys, store] at exact
  cases exact

end Runs

end Persister

end OpenAvc.State
