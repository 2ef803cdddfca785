import OpenAvc.Data.Utf8Codec
import OpenAvc.Driver.Framing
import OpenAvc.Run.Machine

/-! A driver with a blank credential listens for a sign-in prompt before it starts. -/

namespace Driver

open Framing

/-- From the dial to the removal of the frame parser, while a prompt is listened for, after
a prompt, and once the connection is in use. -/
inductive Phase where
  | connecting | listening | refused | live
  deriving DecidableEq

/-- The connection: the parser, which the transport does not have while a prompt is listened
for, the calls of `on_data_received` that have been scheduled, the auth buffer, the texts
handed to the response matcher, and the chunks that have been read. -/
structure SignIn where
  phase : Phase := .connecting
  frameParser : FrameParser Nat
  queue : List (List Nat) := []
  authBuffer : List Nat := []
  handed : List Text := []
  chunks : List (List Nat) := []

inductive SignInLabel where
  | read (chunk : List Nat)
  | deliver
  | postConnect
  | look
  | finish
  deriving DecidableEq

/-- The text of a message, if there is one. -/
def messageText (data : List Nat) : Option Text :=
  let text := Text.strip (Utf8.decode data)
  if text = [] then none else some text

namespace SignIn

/-- `_auth_mode` -/
def authMode (s : SignIn) : Bool :=
  s.phase = .connecting ∨ s.phase = .listening

/-- One turn of `_reader_loop`. Each message becomes a task. -/
def read (s : SignIn) (chunk : List Nat) : SignIn :=
  if s.phase = .listening then { s with queue := s.queue ++ [chunk], chunks := s.chunks ++ [chunk] }
  else
    let (messages, frameParser) := s.frameParser.feed chunk
    { s with queue := s.queue ++ messages, frameParser, chunks := s.chunks ++ [chunk] }

def onDataReceived (s : SignIn) (data : List Nat) : SignIn :=
  if s.authMode then { s with authBuffer := s.authBuffer ++ data }
  else { s with handed := s.handed ++ (messageText data).toList }

/-- `_post_connect` up to the listening: the parser is put aside, and what it has kept goes
into the auth buffer. -/
def postConnect (s : SignIn) : SignIn :=
  { s with
    phase := .listening
    authBuffer := s.authBuffer ++ s.frameParser.buffer
    frameParser := { s.frameParser with buffer := [] } }

/-- The end of `_refuse_unanswerable_prompt`: the parser is put back, and the messages it
makes of the auth buffer are taken up at once. -/
def finish (s : SignIn) : SignIn :=
  let (replay, frameParser) := if s.authBuffer = [] then ([], s.frameParser) else s.frameParser.feed s.authBuffer
  { s with phase := .live, authBuffer := [], frameParser, handed := s.handed ++ replay.filterMap messageText }

/-- The window may close at any time: when it is over, once the line has been quiet, or
because too much has come. -/
def next (prompt : Text → Bool) (s : SignIn) : SignInLabel → Option SignIn
  | .read chunk => if chunk = [] ∨ s.phase = .refused then none else some (s.read chunk)
  | .deliver =>
    match s.queue with
    | [] => none
    | data :: queue => some (onDataReceived { s with queue } data)
  | .postConnect => if s.phase = .connecting then some s.postConnect else none
  | .look =>
    if s.phase = .listening then
      some (if prompt (Utf8.decode s.authBuffer) then { s with phase := .refused } else s)
    else none
  | .finish => if s.phase = .listening then some s.finish else none

/-- A connection over which delimiters end the messages; `prompt` is the search for the
prompt's pattern. -/
def machine (prompt : Text → Bool) : Run.Machine SignIn SignInLabel where
  init s := ∃ delimiter maxBuffer, delimiter ≠ [] ∧ s = { frameParser := { delimiter, maxBuffer } }
  next := next prompt

def stream (s : SignIn) : List Nat :=
  s.chunks.flatten

/-- What reaches the matcher of the same chunks when nobody listens for a prompt. -/
def direct (s : SignIn) : List Text :=
  ((({ s.frameParser with buffer := [] } : FrameParser Nat).feedAll s.chunks).1).filterMap messageText

/-- No message is complete before the parser is put aside, and no chunk is still on its way
when it is put back. -/
def Clean (s : SignIn) : SignInLabel → Bool
  | .read chunk => s.phase ≠ .connecting ∨ (s.frameParser.feed chunk).1 = []
  | .finish => s.queue = []
  | _ => true

/-- Where the bytes of the stream are. -/
structure Books (s : SignIn) : Prop where
  nonempty : s.frameParser.delimiter ≠ []
  connecting : s.phase = .connecting → s.queue = [] ∧ s.authBuffer = [] ∧ s.handed = [] ∧
    framed s.frameParser.delimiter s.stream = [] ∧ s.frameParser.buffer = leftover s.frameParser.delimiter s.stream
  listening : s.phase = .listening → s.handed = [] ∧ s.frameParser.buffer = [] ∧ ∃ early later,
    s.stream = early ++ later ∧ framed s.frameParser.delimiter early = [] ∧
      s.authBuffer ++ s.queue.flatten = leftover s.frameParser.delimiter early ++ later
  live : s.phase = .live → s.frameParser.buffer = leftover s.frameParser.delimiter s.stream ∧
    s.handed ++ s.queue.filterMap messageText = (framed s.frameParser.delimiter s.stream).filterMap messageText
  notRefused : s.phase ≠ .refused

/-- No piece of the stream has the prompt in it. -/
def Quiet (prompt : Text → Bool) (stream : List Nat) : Prop :=
  ∀ part, part <:+: stream → prompt (Utf8.decode part) = false

theorem stream_read (s : SignIn) (chunk : List Nat) : (s.read chunk).stream = s.stream ++ chunk := by
  unfold read
  split <;> simp [stream]

theorem Books.start {delimiter : List Nat} (nonempty : delimiter ≠ []) (maxBuffer : Nat) :
    Books { frameParser := { delimiter, maxBuffer } } where
  nonempty := nonempty
  connecting _ := ⟨rfl, rfl, rfl, rfl, rfl⟩
  listening other := by cases other
  live other := by cases other
  notRefused other := by cases other

variable {s : SignIn}

theorem Books.phases (B : Books s) : s.phase = .connecting ∨ s.phase = .listening ∨ s.phase = .live := by
  have other := B.notRefused
  cases phase : s.phase with
  | connecting => exact Or.inl rfl
  | listening => exact Or.inr (Or.inl rfl)
  | refused => exact absurd phase other
  | live => exact Or.inr (Or.inr rfl)

theorem Books.read (B : Books s) {chunk : List Nat} (clean : s.Clean (.read chunk))
    (bounded : (leftover s.frameParser.delimiter (s.stream ++ chunk)).length ≤ s.frameParser.maxBuffer) :
    Books (s.read chunk) := by
  have stream := stream_read s chunk
  rcases B.phases with atPhase | atPhase | atPhase
  · obtain ⟨idle, empty, unhanded, none, holds⟩ := B.connecting atPhase
    have fed := FrameParser.feed_eq B.nonempty holds bounded
    have whole := framed_append B.nonempty s.stream chunk
    simp only [Clean, atPhase, ne_eq, not_true_eq_false, false_or, decide_eq_true_eq] at clean
    have after : s.read chunk = { s with
        frameParser := { s.frameParser with buffer := leftover s.frameParser.delimiter (s.stream ++ chunk) }
        chunks := s.chunks ++ [chunk] } := by
      rw [SignIn.read, if_neg (by rw [atPhase]; decide), fed]
      rw [fed] at clean
      dsimp only at clean ⊢
      rw [clean, List.append_nil]
    rw [fed] at clean
    dsimp only at clean
    rw [none, clean, List.append_nil] at whole
    rw [after] at stream ⊢
    refine ⟨B.nonempty, fun _ => ⟨idle, empty, unhanded, ?_, ?_⟩, ?_, ?_, B.notRefused⟩
    · rw [stream]
      exact whole
    · rw [stream]
    · intro other
      cases atPhase.symm.trans other
    · intro other
      cases atPhase.symm.trans other
  · obtain ⟨unhanded, removed, early, later, split, none, kept⟩ := B.listening atPhase
    have after : s.read chunk = { s with queue := s.queue ++ [chunk], chunks := s.chunks ++ [chunk] } := by
      rw [SignIn.read, if_pos atPhase]
    rw [after] at stream ⊢
    refine ⟨B.nonempty, ?_, fun _ => ⟨unhanded, removed, early, later ++ chunk, ?_, none, ?_⟩, ?_, B.notRefused⟩
    · intro other
      cases atPhase.symm.trans other
    · rw [stream, split, List.append_assoc]
    · rw [List.flatten_append, List.flatten_singleton, ← List.append_assoc, kept, List.append_assoc]
    · intro other
      cases atPhase.symm.trans other
  · obtain ⟨holds, sum⟩ := B.live atPhase
    have fed := FrameParser.feed_eq B.nonempty holds bounded
    have whole := framed_append B.nonempty s.stream chunk
    have after : s.read chunk = { s with
        queue := s.queue ++ framed s.frameParser.delimiter (leftover s.frameParser.delimiter s.stream ++ chunk)
        frameParser := { s.frameParser with buffer := leftover s.frameParser.delimiter (s.stream ++ chunk) }
        chunks := s.chunks ++ [chunk] } := by
      rw [SignIn.read, if_neg (by rw [atPhase]; decide), fed]
    rw [after] at stream ⊢
    refine ⟨B.nonempty, ?_, ?_, fun _ => ⟨?_, ?_⟩, B.notRefused⟩
    · intro other
      cases atPhase.symm.trans other
    · intro other
      cases atPhase.symm.trans other
    · rw [stream]
    · rw [stream, whole, List.filterMap_append, List.filterMap_append, ← List.append_assoc, sum]

theorem Books.deliver (B : Books s) {data : List Nat} {queue : List (List Nat)} (first : s.queue = data :: queue) :
    Books (onDataReceived { s with queue } data) := by
  rcases B.phases with atPhase | atPhase | atPhase
  · have idle := (B.connecting atPhase).1
    rw [first] at idle
    cases idle
  · obtain ⟨unhanded, removed, early, later, split, none, kept⟩ := B.listening atPhase
    have mode : authMode { s with queue } = true := decide_eq_true (Or.inr atPhase)
    rw [onDataReceived, if_pos mode]
    refine ⟨B.nonempty, ?_, fun _ => ⟨unhanded, removed, early, later, split, none, ?_⟩, ?_, B.notRefused⟩
    · intro other
      cases atPhase.symm.trans other
    · rw [first, List.flatten_cons, ← List.append_assoc] at kept
      exact kept
    · intro other
      cases atPhase.symm.trans other
  · obtain ⟨holds, sum⟩ := B.live atPhase
    have mode : ¬authMode { s with queue } = true := by
      rw [authMode, decide_eq_true_eq, atPhase]
      decide
    rw [onDataReceived, if_neg mode]
    refine ⟨B.nonempty, ?_, ?_, fun _ => ⟨holds, ?_⟩, B.notRefused⟩
    · intro other
      cases atPhase.symm.trans other
    · intro other
      cases atPhase.symm.trans other
    · have head : (data :: queue).filterMap messageText = (messageText data).toList ++ queue.filterMap messageText := by
        rw [List.filterMap_cons]
        cases messageText data <;> rfl
      rw [first, head, ← List.append_assoc] at sum
      exact sum

theorem Books.postConnect (B : Books s) (atPhase : s.phase = .connecting) : Books s.postConnect := by
  obtain ⟨idle, empty, unhanded, none, holds⟩ := B.connecting atPhase
  refine ⟨B.nonempty, ?_, fun _ => ⟨unhanded, rfl, s.stream, [], ?_, none, ?_⟩, ?_, ?_⟩
  · intro other
    cases other
  · rw [List.append_nil]
    rfl
  · show s.authBuffer ++ s.frameParser.buffer ++ s.queue.flatten = _
    rw [empty, idle, holds, List.nil_append, List.flatten_nil]
    rfl
  · intro other
    cases other
  · intro other
    cases other

theorem Books.finish (B : Books s) (atPhase : s.phase = .listening) (idle : s.queue = [])
    (bounded : (leftover s.frameParser.delimiter s.stream).length ≤ s.frameParser.maxBuffer) : Books s.finish := by
  obtain ⟨unhanded, removed, early, later, split, none, kept⟩ := B.listening atPhase
  have messages := framed_append B.nonempty early later
  have left := leftover_append B.nonempty early later
  rw [idle, List.flatten_nil, List.append_nil] at kept
  rw [← split, none, List.nil_append, ← kept] at messages
  rw [← split, ← kept] at left
  have replay : (if s.authBuffer = [] then ([], s.frameParser) else s.frameParser.feed s.authBuffer) =
      (framed s.frameParser.delimiter s.stream,
        { s.frameParser with buffer := leftover s.frameParser.delimiter s.stream }) := by
    split
    · rename_i empty
      rw [messages, left, empty]
      have same : s.frameParser = { s.frameParser with buffer := [] } := by rw [← removed]
      exact congrArg _ same
    · have start : s.frameParser.buffer = leftover s.frameParser.delimiter [] := removed
      have fed := @FrameParser.feed_eq _ _ _ B.nonempty [] s.authBuffer start (by rwa [List.nil_append, ← left])
      rw [fed, List.nil_append, ← left, messages]
      rfl
  have after : s.finish = { s with
      phase := .live
      authBuffer := []
      frameParser := { s.frameParser with buffer := leftover s.frameParser.delimiter s.stream }
      handed := (framed s.frameParser.delimiter s.stream).filterMap messageText } := by
    rw [SignIn.finish, replay, unhanded]
    rfl
  rw [after]
  refine ⟨B.nonempty, ?_, ?_, fun _ => ⟨rfl, ?_⟩, ?_⟩
  · intro other
    cases other
  · intro other
    cases other
  · rw [idle, List.filterMap_nil, List.append_nil]
    rfl
  · intro other
    cases other

/-- What every clean step keeps, as long as the stream stays within what it may be. -/
theorem Books.next {prompt : Text → Bool} {label : SignInLabel} {s' : SignIn} (B : Books s) (clean : s.Clean label = true)
    (run : next prompt s label = some s') (bounded : Bounded s.frameParser.delimiter s.frameParser.maxBuffer s'.stream)
    (quiet : Quiet prompt s'.stream) : Books s' := by
  cases label with
  | read chunk =>
    rw [SignIn.next, Option.ite_none_left_eq_some, Option.some.injEq] at run
    obtain ⟨-, rfl⟩ := run
    exact B.read clean (bounded _ (by rw [stream_read]))
  | deliver =>
    rw [SignIn.next] at run
    split at run
    · cases run
    · rename_i data queue first
      exact Option.some.inj run ▸ B.deliver first
  | postConnect =>
    rw [SignIn.next, Option.ite_none_right_eq_some, Option.some.injEq] at run
    obtain ⟨atPhase, rfl⟩ := run
    exact B.postConnect atPhase
  | look =>
    rw [SignIn.next, Option.ite_none_right_eq_some, Option.some.injEq] at run
    obtain ⟨atPhase, rfl⟩ := run
    obtain ⟨-, -, early, later, split, -, kept⟩ := B.listening atPhase
    have piece : s.authBuffer <:+: s.stream := by
      have within : leftover s.frameParser.delimiter early ++ later <:+ s.stream := by
        obtain ⟨before, whole⟩ := @leftover_suffix _ _ s.frameParser.delimiter early
        exact ⟨before, by rw [split, ← List.append_assoc, whole]⟩
      rw [← kept] at within
      exact (List.prefix_append _ _).isInfix.trans within.isInfix
    have unseen : prompt (Utf8.decode s.authBuffer) = false := by
      refine quiet _ ?_
      split_ifs <;> exact piece
    rw [if_neg (by rw [unseen]; decide)]
    exact B
  | finish =>
    rw [SignIn.next, Option.ite_none_right_eq_some, Option.some.injEq] at run
    obtain ⟨atPhase, rfl⟩ := run
    exact B.finish atPhase (of_decide_eq_true clean) (bounded _ List.prefix_rfl)

/-- A step reads at most one chunk more, with the same parser. -/
theorem next_stream {prompt : Text → Bool} {label : SignInLabel} {s' : SignIn} (run : next prompt s label = some s') :
    s.stream <+: s'.stream ∧ s'.frameParser.delimiter = s.frameParser.delimiter ∧
      s'.frameParser.maxBuffer = s.frameParser.maxBuffer := by
  cases label with
  | read chunk =>
    rw [next, Option.ite_none_left_eq_some, Option.some.injEq] at run
    obtain ⟨-, rfl⟩ := run
    refine ⟨by rw [stream_read]; exact List.prefix_append _ _, ?_⟩
    unfold read
    split
    · exact ⟨rfl, rfl⟩
    · exact ⟨rfl, rfl⟩
  | deliver =>
    rw [next] at run
    split at run
    · cases run
    · rw [← Option.some.inj run]
      unfold onDataReceived
      split <;> exact ⟨List.prefix_rfl, rfl, rfl⟩
  | postConnect =>
    rw [next, Option.ite_none_right_eq_some, Option.some.injEq] at run
    obtain ⟨-, rfl⟩ := run
    exact ⟨List.prefix_rfl, rfl, rfl⟩
  | look =>
    rw [next, Option.ite_none_right_eq_some, Option.some.injEq] at run
    obtain ⟨-, rfl⟩ := run
    split <;> exact ⟨List.prefix_rfl, rfl, rfl⟩
  | finish =>
    rw [next, Option.ite_none_right_eq_some, Option.some.injEq] at run
    obtain ⟨-, rfl⟩ := run
    refine ⟨List.prefix_rfl, ?_⟩
    unfold finish
    dsimp only
    split <;> exact ⟨rfl, rfl⟩

theorem Quiet.shorter {prompt : Text → Bool} {stream more : List Nat} (quiet : Quiet prompt more)
    (first : stream <+: more) : Quiet prompt stream :=
  fun part inside => quiet part (inside.trans first.isInfix)

theorem Books.of_reach {prompt : Text → Bool} (reach : Run.Reach (machine prompt) (fun s l => s.Clean l = true) s)
    (bounded : Bounded s.frameParser.delimiter s.frameParser.maxBuffer s.stream) (quiet : Quiet prompt s.stream) : Books s := by
  induction reach with
  | init start =>
    obtain ⟨delimiter, maxBuffer, nonempty, rfl⟩ := start
    exact Books.start nonempty maxBuffer
  | step _ clean run ih =>
    obtain ⟨longer, delimiter, maxBuffer⟩ := next_stream run
    rw [delimiter, maxBuffer] at bounded
    exact (ih (bounded.shorter longer) (quiet.shorter longer)).next clean run bounded quiet

/-- Of a stream without a prompt nothing is lost or changed, if no message was cut before
the listening and no chunk was on its way at its end. -/
theorem listening_exact {prompt : Text → Bool} (reach : Run.Reach (machine prompt) (fun s l => s.Clean l = true) s)
    (bounded : Bounded s.frameParser.delimiter s.frameParser.maxBuffer s.stream) (quiet : Quiet prompt s.stream) :
    s.phase ≠ .refused ∧ s.handed <+: s.direct ∧ (s.phase = .live → s.queue = [] → s.handed = s.direct) := by
  have B := Books.of_reach reach bounded quiet
  have whole : framed s.frameParser.delimiter s.stream =
      (({ s.frameParser with buffer := [] } : FrameParser Nat).feedAll s.chunks).1 :=
    @FrameParser.feedAll_eq _ _ { s.frameParser with buffer := [] } B.nonempty [] s.chunks rfl bounded
  refine ⟨B.notRefused, ?_, ?_⟩
  · rcases B.phases with atPhase | atPhase | atPhase
    · rw [(B.connecting atPhase).2.2.1]
      exact List.nil_prefix
    · rw [(B.listening atPhase).1]
      exact List.nil_prefix
    · rw [direct, ← whole, ← (B.live atPhase).2]
      exact List.prefix_append _ _
  · intro atPhase idle
    have sum := (B.live atPhase).2
    rw [idle, List.filterMap_nil, List.append_nil] at sum
    rw [direct, ← whole, sum]

/-- Bytes come in two pieces, the first of them before there is a delimiter. -/
theorem listening_exact_split : ∃ s, Run.Reach (machine fun _ => false) (fun s l => s.Clean l = true) s ∧
    s.phase ≠ .refused ∧ s.handed <+: s.direct ∧ (s.phase = .live → s.queue = [] → s.handed = s.direct) := by
  have run : ∃ s, (machine fun _ => false).run (fun s l => s.Clean l = true)
      { frameParser := { delimiter := [13], maxBuffer := 65536 } }
      [.read [65], .postConnect, .read [13, 66, 13], .deliver, .look, .finish] = some s ∧
      s.frameParser.delimiter = [13] ∧ s.frameParser.maxBuffer = 65536 ∧ s.stream = [65, 13, 66, 13] := ⟨_, rfl, rfl, rfl, rfl⟩
  obtain ⟨s, run, delimiter, maxBuffer, stream⟩ := run
  have reach : Run.Reach (machine fun _ => false) (fun s l => s.Clean l = true) s :=
    .run (.init ⟨[13], 65536, by decide, rfl⟩) run
  refine ⟨s, reach, listening_exact reach ?_ fun _ _ => rfl⟩
  rw [delimiter, maxBuffer, stream]
  intro part first
  have short := (@leftover_suffix _ _ [13] part).length_le.trans first.length_le
  exact le_trans short (by decide)

/-- A message that comes with the connection is lost: its delimiter has been taken off. -/
theorem early_message_lost : ∃ s, Run.Reach (machine fun _ => false) Run.always s ∧ s.stream = [65, 13] ∧
    s.phase = .live ∧ s.queue = [] ∧ s.handed = [] ∧ s.direct = [[65]] := by
  have run : ∃ s, (machine fun _ => false).run Run.always { frameParser := { delimiter := [13], maxBuffer := 65536 } }
      [.read [65, 13], .postConnect, .deliver, .look, .finish] = some s ∧ s.stream = [65, 13] ∧
      s.phase = .live ∧ s.queue = [] ∧ s.handed = [] ∧ s.direct = [[65]] := ⟨_, rfl, rfl, rfl, rfl, rfl, rfl⟩
  obtain ⟨s, run, facts⟩ := run
  exact ⟨s, .run (.init ⟨[13], 65536, by decide, rfl⟩) run, facts⟩

end SignIn

end Driver
