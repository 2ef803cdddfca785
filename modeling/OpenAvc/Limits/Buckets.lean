import Mathlib.Algebra.Order.Floor.Defs
import Mathlib.Data.Rat.Floor
import OpenAvc.Data.SlidingLog
import OpenAvc.Data.StableSort
import OpenAvc.Limits.Tiers

/-! The rate limiter: a bucket of sliding windows for each client, and what becomes of a
request on its way through. -/

namespace OpenAvc.Limits

/-- What a window counts: the requests of a tier, or the 401 answers. -/
inductive Lane
  | tier (tier : Tier)
  | authFail
  deriving DecidableEq

/-- `WINDOW_SECONDS` -/
def windowSeconds : ℚ := 60

/-- `CLEANUP_INTERVAL` -/
def cleanupInterval : ℚ := 60

/-- `STALE_THRESHOLD` -/
def staleThreshold : ℚ := 300

/-- `RATE_LIMIT_ENABLED`, and the limit of each tier. -/
structure Config where
  enabled : Bool := true
  perMinute : Tier → Int

/-- The limit of a window. The 401 answers have that of the strict tier. -/
def Config.maxCount (config : Config) : Lane → Int
  | .tier tier => config.perMinute tier
  | .authFail => config.perMinute .strict

/-- `_SlidingWindow` -/
structure SlidingWindow where
  timestamps : List ℚ := []
  maxCount : Int

namespace SlidingWindow

/-- `_prune` -/
def prune (w : SlidingWindow) (now : ℚ) : SlidingWindow :=
  { w with timestamps := w.timestamps.dropWhile (· < now - windowSeconds) }

/-- `is_exceeded`, which prunes. -/
def isExceeded (w : SlidingWindow) (now : ℚ) : Bool × SlidingWindow :=
  let w := w.prune now
  (w.maxCount ≤ w.timestamps.length, w)

def record (w : SlidingWindow) (now : ℚ) : SlidingWindow :=
  { w with timestamps := w.timestamps ++ [now] }

/-- `time_until_open`, which prunes. `none` is the `IndexError` where nothing is recorded
and the limit is not positive. -/
def timeUntilOpen (w : SlidingWindow) (now : ℚ) : Option ℚ × SlidingWindow :=
  let w := w.prune now
  if w.timestamps.length < w.maxCount then (some 0, w)
  else (w.timestamps.head?.map (· + windowSeconds - now), w)

/-- `if w.is_exceeded(now): retry = w.time_until_open(now)`, with `none` where it is not. -/
def gate (w : SlidingWindow) (now : ℚ) : Option (Option ℚ) × SlidingWindow :=
  let (exceeded, w) := w.isExceeded now
  if exceeded then
    let (retry, w) := w.timeUntilOpen now
    (some retry, w)
  else (none, w)

end SlidingWindow

/-- `_IPBuckets` -/
structure Buckets where
  openTier : SlidingWindow
  standard : SlidingWindow
  control : SlidingWindow
  strict : SlidingWindow
  media : SlidingWindow
  authFail : SlidingWindow
  lastSeen : ℚ

namespace Buckets

def new (config : Config) (now : ℚ) : Buckets where
  openTier := { maxCount := config.perMinute .openTier }
  standard := { maxCount := config.perMinute .standard }
  control := { maxCount := config.perMinute .control }
  strict := { maxCount := config.perMinute .strict }
  media := { maxCount := config.perMinute .media }
  authFail := { maxCount := config.perMinute .strict }
  lastSeen := now

/-- `get_window`, and `auth_fail`. -/
def window (b : Buckets) : Lane → SlidingWindow
  | .tier .openTier => b.openTier
  | .tier .standard => b.standard
  | .tier .control => b.control
  | .tier .strict => b.strict
  | .tier .media => b.media
  | .authFail => b.authFail

def setWindow (b : Buckets) (w : SlidingWindow) : Lane → Buckets
  | .tier .openTier => { b with openTier := w }
  | .tier .standard => { b with standard := w }
  | .tier .control => { b with control := w }
  | .tier .strict => { b with strict := w }
  | .tier .media => { b with media := w }
  | .authFail => { b with authFail := w }

theorem window_setWindow (b : Buckets) (w : SlidingWindow) (lane lane' : Lane) :
    (b.setWindow w lane).window lane' = if lane' = lane then w else b.window lane' := by
  rcases lane with (_ | _ | _ | _ | _) | _ <;> rcases lane' with (_ | _ | _ | _ | _) | _ <;> rfl

@[simp] theorem lastSeen_setWindow (b : Buckets) (w : SlidingWindow) (lane : Lane) :
    (b.setWindow w lane).lastSeen = b.lastSeen := by
  rcases lane with (_ | _ | _ | _ | _) | _ <;> rfl

theorem window_new (config : Config) (now : ℚ) (lane : Lane) :
    (new config now).window lane = { maxCount := config.maxCount lane } := by
  rcases lane with (_ | _ | _ | _ | _) | _ <;> rfl

end Buckets

/-- A `dispatch` that waits for the response to its request, with its local names. -/
structure Flight where
  rid : Nat
  clientIp : Text
  buckets : Nat
  tier : Tier
  now : ℚ

/-- The module's state. `objects` are all the buckets ever made, which a `dispatch` that
waits still holds after they have left the dict, and `clock` is what the monotonic clock
has last said. -/
structure Limiter where
  objects : List Buckets := []
  ipBuckets : List (Text × Nat) := []
  lastCleanup : ℚ
  warnDedup : List ((Text × Lane) × ℚ) := []
  registry : Registry := {}
  flights : List Flight := []
  clock : ℚ

/-- What a client's request or its response comes to. -/
inductive Outcome
  | admitted
  | refused (lane : Lane) (retryAfter : Nat)
  | failed
  | recorded (lane : Lane)
  | dropped
  deriving DecidableEq

/-- `_make_429`: the seconds in `Retry-After`. -/
def make429 (retryAfter : ℚ) : Nat :=
  (max 1 ⌈retryAfter⌉).toNat

namespace Limiter

/-- The state once the module is imported. -/
def initial (now : ℚ) : Limiter where
  lastCleanup := now
  clock := now

/-- `_cleanup` -/
def cleanup (s : Limiter) (now : ℚ) : Limiter :=
  if now - s.lastCleanup < cleanupInterval then s
  else
    let warns := s.warnDedup.filter fun u => ¬staleThreshold < now - u.2
    let oldest := (StableSort.sortedBy Prod.snd warns).take 5000
    { s with
      lastCleanup := now
      ipBuckets := s.ipBuckets.filter fun u =>
        ¬(s.objects[u.2]?).any fun b => staleThreshold < now - b.lastSeen
      warnDedup := if 10000 < warns.length then warns.filter (·.1 ∉ oldest.map Prod.fst) else warns }

/-- `_log_limited`, which only keeps when it last warned. -/
def logLimited (s : Limiter) (ip : Text) (lane : Lane) (now : ℚ) : Limiter :=
  if 30 < now - (s.warnDedup.lookup (ip, lane)).getD 0 then
    { s with warnDedup := Dict.set s.warnDedup (ip, lane) now }
  else s

/-- The 429 of a gate that is closed, or the error that reading its time raises. -/
def refuse (s : Limiter) (ip : Text) (lane : Lane) (now : ℚ) : Option ℚ → Outcome × Limiter
  | none => (.failed, s)
  | some retry => (.refused lane (make429 retry), s.logLimited ip lane now)

/-- The buckets of a client, made if it has none. -/
def bucketsOf (config : Config) (s : Limiter) (clientIp : Text) (now : ℚ) : Nat × Limiter :=
  match s.ipBuckets.lookup clientIp with
  | some i => (i, s)
  | none => (s.objects.length,
      { s with
        objects := s.objects ++ [Buckets.new config now]
        ipBuckets := Dict.set s.ipBuckets clientIp s.objects.length })

/-- One of the buckets is changed where it is. -/
def modify (s : Limiter) (i : Nat) (f : Buckets → Buckets) : Limiter :=
  { s with objects := s.objects.modify i f }

/-- The gates of `dispatch`: that of the 401 answers, then that of the request's own tier. -/
def gates (s : Limiter) (rid : Nat) (clientIp : Text) (i : Nat) (tier : Tier) (now : ℚ) : Outcome × Limiter :=
  match s.objects[i]? with
  | none => (.failed, s)
  | some b =>
    let auth := (b.window .authFail).gate now
    let s := s.modify i (·.setWindow auth.2 .authFail)
    match auth.1 with
    | some retry => s.refuse clientIp .authFail now retry
    | none =>
      let window := (b.window (.tier tier)).gate now
      let s := s.modify i (·.setWindow window.2 (.tier tier))
      match window.1 with
      | some retry => s.refuse clientIp (.tier tier) now retry
      | none => (.admitted, { s with flights := s.flights ++ [⟨rid, clientIp, i, tier, now⟩] })

/-- The part of `dispatch` up to the request itself, for a request that is metered. -/
def meter (config : Config) (s : Limiter) (rid : Nat) (clientIp : Text) (tier : Tier) (now : ℚ) :
    Outcome × Limiter :=
  let (i, s) := s.bucketsOf config clientIp now
  (s.modify i fun b => { b with lastSeen := now }).gates rid clientIp i tier now

/-- Where an answer is recorded. -/
def laneOf (tier : Tier) (status : Nat) : Lane :=
  if status = 401 then .authFail else .tier tier

/-- The rest of `dispatch`, with the response. -/
def record (s : Limiter) (f : Flight) (status : Nat) (now : ℚ) : Limiter :=
  { s.modify f.buckets fun b => b.setWindow ((b.window (laneOf f.tier status)).record now) (laneOf f.tier status) with
    flights := s.flights.filter (·.rid ≠ f.rid) }

end Limiter

/-- What a metered client does. -/
inductive Act
  | arrive (rid : Nat) (tier : Tier) (now : ℚ)
  | answer (rid status : Nat) (now : ℚ)
  | abort (rid : Nat)
  deriving DecidableEq

/-- A metered step: the client, what it did and what came of it. -/
structure Entry where
  clientIp : Text
  act : Act
  outcome : Outcome
  deriving DecidableEq

/-- What happens to the limiter. `raised` is a request whose handling raises. -/
inductive Event
  | request (rid : Nat) (now : ℚ) (request : Request)
  | response (rid : Nat) (now : ℚ) (status : Nat)
  | raised (rid : Nat)
  | registerMediaPatterns (mount : Text) (patterns : List (Option Text × Text))
  | unregisterMediaPatterns (mount : Text)
  | registerStandardPrefix (mount : Text)
  | unregisterStandardPrefix (mount : Text)

namespace Limiter

variable {ip : Panels.IpAddress} (config : Config) (proxies : Panels.Proxies ip)

/-- `dispatch` -/
def dispatch (s : Limiter) (rid : Nat) (now : ℚ) (request : Request) : Limiter × Option Entry :=
  let s := { s with clock := now }
  if !config.enabled then (s, none)
  else if request.method = text "OPTIONS" then (s, none)
  else
    match s.registry.classify request.method request.path with
    | none => (s, none)
    | some tier =>
      let s := s.cleanup now
      let (clientIp, exempt) := clientKey proxies request.origin
      if exempt then (s, none)
      else
        let (outcome, s) := s.meter config rid clientIp tier now
        (s, some ⟨clientIp, .arrive rid tier now, outcome⟩)

/-- One step. There is none where the clock goes back, or for a response that nothing waits for. -/
def step (s : Limiter) : Event → Option (Limiter × Option Entry)
  | .request rid now request =>
    if now < s.clock ∨ ∃ f ∈ s.flights, f.rid = rid then none else some (s.dispatch config proxies rid now request)
  | .response rid now status =>
    if now < s.clock then none
    else
      (s.flights.find? (·.rid = rid)).map fun f =>
        ({ s.record f status now with clock := now },
          some ⟨f.clientIp, .answer rid status now, .recorded (laneOf f.tier status)⟩)
  | .raised rid =>
    (s.flights.find? (·.rid = rid)).map fun f =>
      ({ s with flights := s.flights.filter (·.rid ≠ f.rid) }, some ⟨f.clientIp, .abort rid, .dropped⟩)
  | .registerMediaPatterns mount patterns =>
    some ({ s with registry := s.registry.registerMediaPatterns mount patterns }, none)
  | .unregisterMediaPatterns mount => some ({ s with registry := s.registry.unregisterMediaPatterns mount }, none)
  | .registerStandardPrefix mount => some ({ s with registry := s.registry.registerStandardPrefix mount }, none)
  | .unregisterStandardPrefix mount => some ({ s with registry := s.registry.unregisterStandardPrefix mount }, none)

/-- The runs in which every step fits. -/
inductive Run (fits : Limiter → Event → Prop) : Limiter → List Entry → Prop
  | start (now : ℚ) : Run fits (initial now) []
  | next {s s' : Limiter} {trace : List Entry} {event : Event} {entry : Option Entry} : Run fits s trace →
      fits s event → s.step config proxies event = some (s', entry) → Run fits s' (trace ++ entry.toList)

/-- A run that goes on with these events, as far as they fit. -/
def play (fits : Limiter → Event → Prop) [∀ s event, Decidable (fits s event)] (s : Limiter) (trace : List Entry) :
    List Event → Option (Limiter × List Entry)
  | [] => some (s, trace)
  | event :: events =>
    if fits s event then (s.step config proxies event).bind fun next => play fits next.1 (trace ++ next.2.toList) events
    else none

variable {config proxies}

theorem Run.play {fits : Limiter → Event → Prop} [∀ s event, Decidable (fits s event)] {s s' : Limiter}
    {trace trace' : List Entry} {events : List Event} (run : Run config proxies fits s trace)
    (played : Limiter.play config proxies fits s trace events = some (s', trace')) : Run config proxies fits s' trace' := by
  induction events generalizing s trace with
  | nil =>
    cases played
    exact run
  | cons event events ih =>
    rw [Limiter.play] at played
    split at played
    · rename_i fit
      obtain ⟨next, stepped, rest⟩ := Option.bind_eq_some_iff.mp played
      exact ih (run.next fit stepped) rest
    · cases played

theorem Run.of_play {fits : Limiter → Event → Prop} [∀ s event, Decidable (fits s event)] {now : ℚ} {trace : List Entry}
    {events : List Event} (played : (Limiter.play config proxies fits (initial now) [] events).map Prod.snd = some trace) :
    ∃ s, Run config proxies fits s trace := by
  obtain ⟨ends, shape, rfl⟩ := Option.map_eq_some_iff.mp played
  exact ⟨ends.1, (Run.start now).play shape⟩

end Limiter

end OpenAvc.Limits
