import OpenAvc.Data.JsonLimits
import OpenAvc.Data.Utf8
import OpenAvc.Run.Outcome

/-! How the project file, `state.json` and a restored file are written, and how
`state.json` is loaded. -/

namespace OpenAvc.Saves

/-- A file with what is beside it, and the persister's `_dirty`. -/
structure Files where
  target : Option Bytes
  temp : Option Bytes := none
  crashCopy : Option Bytes := none
  corrupt : Option Bytes := none
  dirty : Bool := false
  deriving DecidableEq

/-- What is raised: an `OSError`, a `ValueError` (of `json` and `encode` among others), or a
`RecursionError`. -/
inductive Exc
  | os
  | value
  | recursion
  deriving DecidableEq

abbrev Op := EStateM Exc Files

/-- What the operating system does with the calls of a save. `os.write` fails, or writes the
first bytes of its buffer and returns how many. -/
structure Calls where
  copy : Bool := true
  mkdir : Bool := true
  mkstemp : Bool := true
  write : Option Nat
  close : Bool := true
  replace : Bool := true
  unlink : Bool := true

def failIf (fails : Bool) (e : Exc) : Op Unit := if fails then throw e else pure ()

/-- `content.encode("utf-8")` -/
def encoded (t : Text) : Option Bytes :=
  if t.all fun c => decide c.isValidChar then some (encodeUtf8 t) else none

/-- `os.write`: its answer is not looked at. -/
def osWrite (f : Calls) (content : Option Bytes) : Op Unit :=
  match content, f.write with
  | none, _ => throw .value
  | some _, none => throw .os
  | some bytes, some n => modify fun s => { s with temp := some (bytes.take n) }

/-- The temporary file is written, closed, and put in the place of the target. -/
def moveIn (f : Calls) (content : Option Bytes) : Op Unit := do
  osWrite f content
  failIf (!f.close) .os
  failIf (!f.replace) .os
  modify fun s => { s with target := s.temp, temp := none }

def makeTemp (f : Calls) : Op Unit := do
  failIf (!f.mkstemp) .os
  modify fun s => { s with temp := some [] }

/-- `finally`: a temporary file that is left is removed, if it can be. -/
def cleaning (f : Calls) (op : Op Unit) : Op Unit := fun s =>
  let cleaned (s : Files) : Files := if f.unlink then { s with temp := none } else s
  match op s with
  | .ok _ s' => .ok () (cleaned s')
  | .error e s' => .error e (cleaned s')

/-- `_atomic_write_bytes` -/
def atomicWriteBytes (f : Calls) (data : Bytes) : Op Unit := do
  makeTemp f
  cleaning f (moveIn f (some data))

/-- What `save_project` writes of a project, if it can be written. -/
def projectBytes (room : Nat) (project : Json) : Option Bytes :=
  if Json.writable room project then encoded (Json.dumps { indent := some 4, ensureAscii := false } project) else none

/-- The rolling copy of the file before it is written -/
def copyAside (f : Calls) : Op Unit := do
  let s ← get
  if s.target.isSome then
    failIf (!f.copy) .os
    modify fun s => { s with crashCopy := s.target }

/-- `save_project`, from the dump of the project on -/
def saveProject (f : Calls) (room : Nat) (project : Json) : Op Unit := do
  failIf (!Json.writable room project) .value
  copyAside f
  cleaning f do
    makeTemp f
    moveIn f (projectBytes room project)

/-- `is_flat_primitive` -/
def isFlatPrimitive : Json → Bool
  | .arr _ | .obj _ => false
  | _ => true

/-- Persistent keys with the values that the store has for them. -/
abbrev Kept := { data : List (Text × Json) // ∀ u ∈ data, isFlatPrimitive u.2 = true }

def stateBytes (data : Kept) : Option Bytes :=
  if Json.writable 1 (.obj data.1) then encoded (Json.dumps { indent := some 2, ensureAscii := false } (.obj data.1))
  else none

/-- `except (TypeError, ValueError, OSError)`, which logs -/
def logging (op : Op Unit) : Op Unit := fun s =>
  match op s with
  | .error .recursion s' => .error .recursion s'
  | .error _ s' => .ok () s'
  | ended => ended

/-- `StatePersister._write` -/
def writeState (f : Calls) (data : Kept) : Op Unit :=
  cleaning f <| logging do
    failIf (!Json.writable 1 (.obj data.1)) .value
    failIf (!f.mkdir) .os
    makeTemp f
    moveIn f (stateBytes data)
    modify fun s => { s with dirty := false }

/-! Loading. -/

/-- `int` refuses the digits that the scanner takes for a number. -/
def overlong (lexeme : Text) : Bool :=
  let unsigned := if lexeme.head? = some 45 then lexeme.tail else lexeme
  let (whole, rest) := unsigned.span isDigit
  let float : Bool := match rest with
    | 46 :: d :: _ => isDigit d
    | 101 :: more | 69 :: more => match more with
      | 43 :: d :: _ | 45 :: d :: _ => isDigit d
      | d :: _ => isDigit d
      | [] => false
    | _ => false
  Json.Scan.intLimit < whole.length && whole.head? ≠ some 48 && !float

/-- Does the scanner come to such a number, before anything else that it refuses? -/
def meetsOverlong (room : Nat) : Json.Scan → Text → Bool
  | s, [] => match s.mode with
    | .lexeme read => overlong read.reverse
    | _ => false
  | s, c :: t =>
    let here := match s.mode with
      | .lexeme read => !Json.Scan.inLexeme c && overlong read.reverse
      | _ => false
    here || match Json.Scan.step room s c with
      | .ok s' => meetsOverlong room s' t
      | .error _ => false

/-- `json.loads`: what it makes of a text; `none` stands for `JSONDecodeError`. -/
def jsonLoads (room : Nat) (t : Text) : Except Exc (Option Json) :=
  match Json.loads room t with
  | .ok v => .ok (some v)
  | .error .recursion => .error .recursion
  | .error .value => if t.head? ≠ some 0xfeff ∧ meetsOverlong room {} t then .error .value else .ok none

/-- `_quarantine` -/
def quarantine (replace : Bool) : Op Unit :=
  modify fun s => if replace then { s with target := none, corrupt := s.target } else s

/-- `load`; the handlers take `JSONDecodeError` and `OSError`. -/
def load (room : Nat) (read replace : Bool) : Op (List (Text × Json)) := do
  let s ← get
  match s.target with
  | none => pure []
  | some bytes =>
    if read then
      match decodeUtf8 bytes with
      | none => throw .value
      | some t =>
        match jsonLoads room t with
        | .error e => throw e
        | .ok (some (.obj fields)) => pure (fields.filter fun u => isFlatPrimitive u.2)
        | .ok _ =>
          quarantine replace
          pure []
    else pure []

end OpenAvc.Saves
