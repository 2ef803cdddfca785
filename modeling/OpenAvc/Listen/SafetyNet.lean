import OpenAvc.Data.Json

/-! Who can connect, and the safety net under a change of it that cuts off the browser
making it. Every file it writes is replaced or removed in one go, and the process can die
between two of them. -/

namespace OpenAvc.Listen

/-- `MODES` -/
inductive Mode
  | any
  | adapter
  | thisComputer
  deriving DecidableEq

def Mode.key : Mode → Text
  | .any => text "any"
  | .adapter => text "adapter"
  | .thisComputer => text "this_computer"

def modes : List Mode := [.any, .adapter, .thisComputer]

/-- An adapter's identity: a dict with these keys and no others, and no empty values. -/
structure Identity where
  name : Option Text := none
  mac : Option Text := none
  address : Option Text := none
  deriving DecidableEq

/-- `k: str(v) ... if k in ("name", "mac", "address") and v` -/
def Identity.clean (raw : List (Text × Text)) : Identity where
  name := (raw.lookup (text "name")).filter (· ≠ [])
  mac := (raw.lookup (text "mac")).filter (· ≠ [])
  address := (raw.lookup (text "address")).filter (· ≠ [])

def Identity.toDict (i : Identity) : List (Text × Text) :=
  (i.name.map (text "name", ·)).toList ++ (i.mac.map (text "mac", ·)).toList ++
    (i.address.map (text "address", ·)).toList

/-- `ListenChoice`, less what holds it: an adapter is named only where one was chosen. -/
structure Choice where
  mode : Mode
  adapter : Identity := {}
  filled : ∀ v ∈ [adapter.name, adapter.mac, adapter.address], v ≠ some [] := by decide
  alone : mode ≠ .adapter → adapter = {} := by decide

theorem Choice.ext_iff {c c' : Choice} : c = c' ↔ c.mode = c'.mode ∧ c.adapter = c'.adapter := by
  cases c
  cases c'
  simp

instance : DecidableEq Choice := fun _ _ => decidable_of_iff _ Choice.ext_iff.symm

/-- What `system.json` holds of it. -/
structure Stored where
  mode : Text
  adapter : List (Text × Text)

theorem Identity.clean_filled (raw : List (Text × Text)) :
    ∀ v ∈ [(Identity.clean raw).name, (Identity.clean raw).mac, (Identity.clean raw).address], v ≠ some [] := by
  have nonempty : ∀ o : Option Text, o.filter (· ≠ []) ≠ some [] := by
    intro o empty
    have held := (Option.filter_eq_some_iff.mp empty).2
    simp at held
  intro v member
  simp only [Identity.clean, List.mem_cons, List.not_mem_nil, or_false] at member
  rcases member with rfl | rfl | rfl <;> exact nonempty _

/-- `ListenChoice.from_config` -/
def Choice.fromConfig (cfg : Stored) : Choice :=
  let mode := (modes.find? (·.key = cfg.mode)).getD .thisComputer
  if adapter : mode = .adapter then
    { mode, adapter := .clean cfg.adapter, filled := Identity.clean_filled _, alone := fun other => absurd adapter other }
  else { mode, alone := fun _ => rfl }

/-- What saving a choice writes. -/
def Choice.toConfig (c : Choice) : Stored where
  mode := c.mode.key
  adapter := c.adapter.toDict

theorem Identity.clean_toDict {i : Identity} (filled : ∀ v ∈ [i.name, i.mac, i.address], v ≠ some []) :
    Identity.clean i.toDict = i := by
  have kept : ∀ v ∈ [i.name, i.mac, i.address], v.filter (· ≠ []) = v := by
    intro v member
    cases h : v with
    | none => rfl
    | some t =>
      have here : t ≠ [] := fun empty => filled v member (h.trans (congrArg some empty))
      simp [Option.filter, here]
  have parts : (i.toDict.lookup (text "name")) = i.name ∧ (i.toDict.lookup (text "mac")) = i.mac ∧
      (i.toDict.lookup (text "address")) = i.address := by
    obtain ⟨name, mac, address⟩ := i
    refine ⟨?_, ?_, ?_⟩ <;> cases name <;> cases mac <;> cases address <;> rfl
  unfold clean
  rw [parts.1, parts.2.1, parts.2.2, kept i.name (by simp), kept i.mac (by simp), kept i.address (by simp)]

theorem Mode.find_key (m : Mode) : modes.find? (·.key = m.key) = some m := by
  cases m <;> decide

/-- A saved choice is the one that the next start reads. -/
theorem Choice.fromConfig_toConfig (c : Choice) : Choice.fromConfig c.toConfig = c := by
  refine Choice.ext_iff.mpr ?_
  have mode : (modes.find? (·.key = c.toConfig.mode)).getD .thisComputer = c.mode := by
    rw [toConfig, Mode.find_key]
    rfl
  unfold fromConfig
  simp only [mode]
  split
  · exact ⟨rfl, Identity.clean_toDict c.filled⟩
  · exact ⟨rfl, (c.alone ‹_›).symm⟩

/-- `choice_label` -/
def choiceLabel (mode : Mode) (adapterName : Text) : Text :=
  match mode with
  | .any => text "Any network"
  | .thisComputer => text "This computer only"
  | .adapter => if adapterName = [] then text "One network only" else adapterName ++ text " only"

/-- `choice_phrase`: the label inside a sentence. -/
def choicePhrase (mode : Mode) (adapterName : Text) : Text :=
  match mode with
  | .any => text "any network"
  | .thisComputer => text "this computer only"
  | .adapter => choiceLabel .adapter adapterName

/-- `_through`: where opening the Programmer confirms the choice. -/
def through (mode : Mode) (adapterName : Text) : Text :=
  match mode with
  | .thisComputer => text "on this computer"
  | .adapter => if adapterName = [] then text "through the chosen network" else text "through " ++ adapterName
  | .any => text "from the network"

/-- `_choice_dict`: a choice, and how the messages name it. -/
structure Described where
  choice : Choice
  label : Text
  phrase : Text
  through : Text

def describe (choice : Choice) (adapterName : Text) : Described :=
  let name := if adapterName = [] then choice.adapter.name.getD [] else adapterName
  { choice, label := choiceLabel choice.mode name, phrase := choicePhrase choice.mode name,
    through := through choice.mode name }

def deadlineSeconds : ℚ := 600

/-- What `listen-safety-net.json` holds. -/
structure Marker where
  previous : Described
  choice : Described
  armedAt : ℚ
  listeningSince : Option ℚ := none
  deadline : ℚ := deadlineSeconds

structure Disk where
  saved : Stored
  marker : Option Marker := none
  notice : Option Text := none

/-- What the server listens on: `listen.current()`. -/
structure Process where
  choice : Choice
  heldByEnv : Bool := false
  adapterName : Text := []

structure Server where
  disk : Disk
  process : Option Process := none

/-- One file written or removed. -/
inductive Write
  | save (stored : Stored)
  | mark (marker : Marker)
  | unmark
  | leave (message : Text)
  | take

def Disk.apply (d : Disk) : Write → Disk
  | .save stored => { d with saved := stored }
  | .mark marker => { d with marker := some marker }
  | .unmark => { d with marker := none }
  | .leave message => { d with notice := some message }
  | .take => { d with notice := none }

/-- `note_listening`: the clock starts when this server runs the new choice. -/
def noteListening (d : Disk) (running : Process) (now : ℚ) : List Write :=
  match d.marker with
  | none => []
  | some marker =>
    if running.heldByEnv ∨ running.choice ≠ marker.choice.choice then [.unmark]
    else if marker.listeningSince = none then [.mark { marker with listeningSince := some now }]
    else []

/-- `_arm_or_disarm`: armed where the change cuts off the browser making it. -/
def armOrDisarm (running : Process) (choice : Choice) (newName : Text) (keeps : Bool) (now : ℚ) : List Write :=
  if choice = running.choice ∨ keeps then [.unmark]
  else [.mark { previous := describe running.choice running.adapterName, choice := describe choice newName, armedAt := now }]

/-- `confirm`: whether it keeps the choice. -/
def confirms (d : Disk) (running : Process) : Option Marker :=
  d.marker.filter fun marker => marker.listeningSince ≠ none ∧ running.choice = marker.choice.choice

def keptMessage (marker : Marker) : Text :=
  text "Kept: Accept connections from " ++ marker.choice.label ++ text "."

/-- `due`: the deadline has passed unconfirmed. -/
def due (d : Disk) (now : ℚ) : Option Marker :=
  d.marker.filter fun marker => marker.listeningSince.any fun since => since + marker.deadline ≤ now

def wentBackMessage (marker : Marker) : Text :=
  text "Went back to " ++ marker.previous.label ++ text " because nobody opened the Programmer " ++
    marker.choice.through ++ text " within " ++ intText (marker.deadline / 60).floor ++ text " minutes."

/-- `revert` -/
def revert (marker : Marker) : List Write :=
  [.save marker.previous.choice.toConfig, .leave (wentBackMessage marker), .unmark]

inductive Act
  /-- `main`, from the choice that the environment holds, or the saved one. -/
  | start (env : Option Choice) (adapterName : Text) (now : ℚ)
  /-- A `PATCH` of the choice, by a browser that it keeps or cuts off. -/
  | change (choice : Choice) (adapterName : Text) (keeps : Bool) (now : ℚ)
  /-- A Programmer load: `confirm_listen`. -/
  | load
  /-- The watcher's tick. -/
  | tick (now : ℚ)

def booted (d : Disk) (env : Option Choice) (adapterName : Text) : Process where
  choice := env.getD (Choice.fromConfig d.saved)
  heldByEnv := env.isSome
  adapterName := adapterName

/-- The process that serves an act. A start takes the place of the process before it, and a
choice that the environment holds cannot be changed. -/
def Server.serving (s : Server) : Act → Option Process
  | .start env name _ => if s.process.isNone then some (booted s.disk env name) else none
  | .change .. => s.process.filter fun p => !p.heldByEnv
  | .load => s.process
  | .tick _ => s.process

def writes (d : Disk) (p : Process) : Act → List Write
  | .start _ _ now => noteListening d p now
  | .change choice name keeps now => armOrDisarm p choice name keeps now ++ [.save choice.toConfig]
  | .load => ((confirms d p).map fun _ => .unmark).toList ++ (d.notice.map fun _ => .take).toList
  | .tick now => ((due d now).map revert).getD []

/-- An act runs to its end, or the process dies when it has made its first `k` writes. -/
inductive Event
  | did (act : Act)
  | cut (act : Act) (k : Nat)
  | stop

def step (s : Server) : Event → Option Server
  | .did act => (s.serving act).map fun p =>
    { disk := (writes s.disk p act).foldl Disk.apply s.disk, process := some p }
  | .cut act k => (s.serving act).map fun p =>
    { disk := ((writes s.disk p act).take k).foldl Disk.apply s.disk, process := none }
  | .stop => some { s with process := none }

/-- What a load says: that the choice is kept, and that the net went back. -/
def confirmListen (s : Server) : Option (Option Text × Option Text) :=
  s.process.map fun p => ((confirms s.disk p).map keptMessage, s.disk.notice)

end OpenAvc.Listen
