import Mathlib.Data.List.Infix
import Mathlib.Data.List.Basic

/-! Frames cut off the front of a buffer, one after the other, while the stream comes in chunks. -/

/-- What stands at the front of a buffer: nothing whole yet, a frame with the message it carries, if
any, or what no more bytes can make a frame of. -/
inductive Framer.Cut (α μ : Type*)
  | more
  | frame (message : Option μ) (rest : List α)
  | lost

/-- A way to cut frames that more bytes behind them do not change. -/
structure Framer (α μ : Type*) where
  cut : List α → Framer.Cut α μ
  shorter : ∀ {l message rest}, cut l = .frame message rest → rest.length < l.length
  stable : ∀ {l message rest} (more : List α), cut l = .frame message rest → cut (l ++ more) = .frame message (rest ++ more)
  lost_stable : ∀ {l} (more : List α), cut l = .lost → cut (l ++ more) = .lost
  prompt : ∀ {l message rest}, cut l = .frame message rest → ∃ wire, l = wire ++ rest ∧ cut wire = .frame message []

namespace Framer

variable {α μ : Type*} (f : Framer α μ)

/-- The messages of a buffer and what is left over. Every round takes off a byte at least. -/
def loop : Nat → List α → List μ × List α
  | 0, buffer => ([], buffer)
  | fuel + 1, buffer =>
    match f.cut buffer with
    | .more => ([], buffer)
    | .lost => ([], [])
    | .frame message rest => (message.toList ++ (loop fuel rest).1, (loop fuel rest).2)

/-- The buffer is cleared where more than `limit` is left over. -/
def feed (limit : Nat) (buffer chunk : List α) : List μ × List α :=
  let (messages, left) := f.loop (buffer ++ chunk).length (buffer ++ chunk)
  (messages, if left.length > limit then [] else left)

/-- Fed with one chunk after another. -/
def feedAll (limit : Nat) : List α → List (List α) → List μ × List α
  | buffer, [] => ([], buffer)
  | buffer, chunk :: chunks =>
    let (messages, buffer) := f.feed limit buffer chunk
    (messages ++ (feedAll limit buffer chunks).1, (feedAll limit buffer chunks).2)

/-- The list is cut into frames of at most `bound` bytes each, which carry these messages, and what is
left over is no frame yet. -/
inductive Frames (bound : Nat) : List α → List μ → List α → Prop
  | nil {l} : f.cut l = .more → Frames bound l [] l
  | cons {l message rest messages left} : f.cut l = .frame message rest → l.length ≤ rest.length + bound →
    Frames bound rest messages left → Frames bound l (message.toList ++ messages) left

/-- There is no whole frame, wherever one begins to read. -/
def Idle (l : List α) : Prop :=
  ∀ part, part <:+: l → f.cut part = .more

/-- The same frames, their cut written another way. -/
@[reducible] def as (cut : List α → Cut α μ) (same : f.cut = cut) : Framer α μ where
  cut := cut
  shorter := same ▸ f.shorter
  stable := same ▸ f.stable
  lost_stable := same ▸ f.lost_stable
  prompt := same ▸ f.prompt

theorem as_eq (cut : List α → Cut α μ) (same : f.cut = cut) : f.as cut same = f := by
  subst same
  rfl

variable {f} {bound limit : Nat} {l more left left' : List α} {messages messages' : List μ}

theorem Frames.left_more (frames : f.Frames bound l messages left) : f.cut left = .more := by
  induction frames with
  | nil cut => exact cut
  | cons _ _ _ ih => exact ih

theorem Frames.loop (frames : f.Frames bound l messages left) {fuel : Nat} (enough : l.length ≤ fuel) :
    f.loop fuel l = (messages, left) := by
  induction frames generalizing fuel with
  | nil cut =>
    cases fuel with
    | zero => rfl
    | succ fuel => rw [Framer.loop, cut]
  | cons cut _ _ ih =>
    have less := f.shorter cut
    obtain ⟨fuel, rfl⟩ : ∃ n, fuel = n + 1 := ⟨fuel - 1, by omega⟩
    rw [Framer.loop, cut]
    dsimp only
    rw [ih (by omega)]

/-- There is one way to cut. -/
theorem Frames.unique (frames : f.Frames bound l messages left) {bound' : Nat} (frames' : f.Frames bound' l messages' left') :
    messages = messages' ∧ left = left' := by
  have same := (frames.loop le_rfl).symm.trans (frames'.loop le_rfl)
  exact ⟨congrArg Prod.fst same, congrArg Prod.snd same⟩

theorem Frames.append (frames : f.Frames bound l messages left) (later : f.Frames bound (left ++ more) messages' left') :
    f.Frames bound (l ++ more) (messages ++ messages') left' := by
  induction frames with
  | nil => exact later
  | cons cut size _ ih =>
    rw [List.append_assoc]
    refine .cons (f.stable more cut) ?_ (ih later)
    simp only [List.length_append]
    omega

/-- A stream may be cut in two parts: what the first leaves over goes before the second. -/
theorem Frames.split (frames : f.Frames bound (l ++ more) messages left) :
    ∃ first held second, f.Frames bound l first held ∧ f.Frames bound (held ++ more) second left ∧
      messages = first ++ second := by
  induction size : l.length using Nat.strongRecOn generalizing l messages with
  | _ n ih =>
    cases cut : f.cut l with
    | more => exact ⟨[], l, messages, .nil cut, frames, rfl⟩
    | lost =>
      have lost := f.lost_stable more cut
      cases frames with
      | nil found => cases found.symm.trans lost
      | cons found => cases found.symm.trans lost
    | frame message rest =>
      have whole := f.stable more cut
      cases frames with
      | nil found => cases found.symm.trans whole
      | @cons _ message' rest' messages' _ found within later =>
        obtain ⟨rfl, rfl⟩ := Cut.frame.inj (whole.symm.trans found)
        have less := f.shorter cut
        obtain ⟨first, held, second, start, finish, rfl⟩ := ih rest.length (by omega) later rfl
        refine ⟨message.toList ++ first, held, second, .cons cut ?_ start, finish, (List.append_assoc _ _ _).symm⟩
        simp only [List.length_append] at within
        omega

theorem Idle.frames (idle : f.Idle l) : f.Frames bound l [] l :=
  .nil (idle l List.infix_rfl)

theorem Idle.of_infix (idle : f.Idle l) {part : List α} (inside : part <:+: l) : f.Idle part :=
  fun part' inside' => idle part' (inside'.trans inside)

/-- What is held together with what is to come is cut into frames with these messages, and nothing is
cleared on the way that a frame would have needed. -/
structure Tame (bound limit : Nat) (buffer rest : List α) (messages : List μ) : Prop where
  waiting : f.cut buffer = .more
  frames : ∃ left, f.Frames bound (buffer ++ rest) messages left
  room : ∀ part later first held, rest = part ++ later → f.Frames bound (buffer ++ part) first held →
    held.length ≤ limit ∨ f.Idle (held ++ later)

theorem Tame.feed {buffer chunk rest : List α} (tame : f.Tame bound limit buffer (chunk ++ rest) messages) :
    ∃ later, messages = (f.feed limit buffer chunk).1 ++ later ∧ f.Tame bound limit (f.feed limit buffer chunk).2 rest later := by
  obtain ⟨left, frames⟩ := tame.frames
  rw [← List.append_assoc] at frames
  obtain ⟨first, held, second, start, finish, rfl⟩ := frames.split
  have looped := start.loop (le_refl (buffer ++ chunk).length)
  unfold Framer.feed
  rw [looped]
  dsimp only
  by_cases tooMuch : held.length > limit
  · -- what is cleared begins no frame, so nothing is lost with it
    have idle := (tame.room chunk rest first held rfl start).resolve_left (Nat.not_le.mpr tooMuch)
    rw [if_pos tooMuch]
    have none' : second = [] := (finish.unique (@Idle.frames _ _ _ bound _ idle)).1
    have later : f.Idle rest := idle.of_infix (List.suffix_append _ _).isInfix
    refine ⟨second, rfl, later [] List.nil_infix, ⟨rest, ?_⟩, fun part after seen kept parts framed => Or.inr ?_⟩
    · rw [none']
      exact later.frames
    · have inside : part <:+: rest := parts ▸ (List.prefix_append part after).isInfix
      obtain ⟨_, rfl⟩ := framed.unique (@Idle.frames _ _ _ bound _ (later.of_infix inside))
      exact parts ▸ later
  · rw [if_neg tooMuch]
    refine ⟨second, rfl, start.left_more, ⟨left, finish⟩, fun part after seen kept parts framed => ?_⟩
    have together := start.append framed
    rw [List.append_assoc] at together
    exact tame.room (chunk ++ part) after _ kept (by rw [parts, List.append_assoc]) together

/-- A tame stream gives the same messages however it is cut into chunks. -/
theorem Tame.feedAll {buffer : List α} {chunks : List (List α)}
    (tame : f.Tame bound limit buffer chunks.flatten messages) : (f.feedAll limit buffer chunks).1 = messages := by
  induction chunks generalizing buffer messages with
  | nil =>
    obtain ⟨left, frames⟩ := tame.frames
    rw [List.flatten_nil, List.append_nil] at frames
    exact ((@Frames.nil _ _ _ bound _ tame.waiting).unique frames).1
  | cons chunk chunks ih =>
    rw [List.flatten_cons] at tame
    obtain ⟨later, rfl, rest⟩ := tame.feed
    rw [Framer.feedAll]
    dsimp only
    rw [ih rest]

/-- What is left unfinished is within the limit or nothing at all. -/
def Quiet (f : Framer α μ) (limit : Nat) : Prop :=
  ∀ l, f.cut l = .more → l.length ≤ limit ∨ f.Idle l

/-- The beginning of a frame is shorter than the frame. -/
theorem Frames.room {held later : List α} (frames : f.Frames bound (held ++ later) messages left) (waiting : f.cut held = .more)
    (quiet : f.Quiet limit) (within : bound ≤ limit + 1) : held.length ≤ limit ∨ f.Idle (held ++ later) := by
  cases frames with
  | nil more =>
    refine (quiet _ more).imp_left fun short => ?_
    rw [List.length_append] at short
    omega
  | @cons _ _ rest _ _ found size _ =>
    obtain ⟨wire, parts, whole⟩ := f.prompt found
    left
    by_contra long
    have size' : (held ++ later).length = wire.length + rest.length := by rw [parts, List.length_append]
    have inside : wire.length ≤ held.length := by omega
    obtain ⟨after, rfl⟩ := List.prefix_of_prefix_length_le (parts ▸ List.prefix_append wire _) (List.prefix_append held later) inside
    cases waiting.symm.trans (f.stable after whole)

/-- A stream of frames that all have room is tame. -/
theorem Frames.tame {stream : List α} (frames : f.Frames bound stream messages left) (empty : f.cut [] = .more)
    (quiet : f.Quiet limit) (within : bound ≤ limit + 1) : f.Tame bound limit [] stream messages := by
  refine ⟨empty, ⟨left, frames⟩, fun part later first held parts framed => ?_⟩
  rw [parts] at frames
  obtain ⟨_, kept, second, start, finish, _⟩ := frames.split
  obtain ⟨_, rfl⟩ := framed.unique start
  exact finish.room start.left_more quiet within

/-- However a stream of frames that all have room is cut into chunks, its messages come out. -/
theorem Frames.feedAll {chunks : List (List α)} (frames : f.Frames bound chunks.flatten messages left)
    (empty : f.cut [] = .more) (quiet : f.Quiet limit) (within : bound ≤ limit + 1) :
    (f.feedAll limit [] chunks).1 = messages :=
  (frames.tame empty quiet within).feedAll

end Framer

/-- Frames whose first `header` bytes say how long they are in `total`. A frame longer than `limit`
can never be held. -/
structure Sized (α μ : Type*) where
  header : Nat
  limit : Nat
  total : List α → Nat
  message : List α → Option μ
  headed : ∀ {l} (more : List α), header ≤ l.length → total (l ++ more) = total l
  covers : ∀ l, header ≤ total l
  positive : 0 < header

namespace Sized

variable {α μ : Type*} (s : Sized α μ)

def cut (l : List α) : Framer.Cut α μ :=
  if l.length < s.header then .more
  else if s.total l > s.limit then .lost
  else if l.length < s.total l then .more
  else .frame (s.message (l.take (s.total l))) (l.drop (s.total l))

variable {s} {l rest : List α} {message : Option μ}

theorem cut_eq_frame (found : s.cut l = .frame message rest) :
    s.header ≤ l.length ∧ s.total l ≤ s.limit ∧ s.total l ≤ l.length ∧ message = s.message (l.take (s.total l)) ∧
      rest = l.drop (s.total l) := by
  unfold cut at found
  split at found
  · cases found
  · split at found
    · cases found
    · split at found
      · cases found
      · obtain ⟨rfl, rfl⟩ := Framer.Cut.frame.inj found
        exact ⟨by omega, by omega, by omega, rfl, rfl⟩

theorem cut_of_whole (headed : s.header ≤ l.length) (small : s.total l ≤ s.limit) (whole : s.total l ≤ l.length) :
    s.cut l = .frame (s.message (l.take (s.total l))) (l.drop (s.total l)) := by
  unfold cut
  rw [if_neg (by omega), if_neg (by omega), if_neg (by omega)]

theorem cut_eq_lost (found : s.cut l = .lost) : s.header ≤ l.length ∧ s.limit < s.total l := by
  unfold cut at found
  split at found
  · cases found
  · split at found
    · exact ⟨by omega, by omega⟩
    · split at found <;> cases found

variable (s)

/-- More bytes leave the header, and so the length it says. -/
def framer : Framer α μ where
  cut := s.cut
  shorter := by
    intro l message rest found
    obtain ⟨_, _, whole, _, rfl⟩ := cut_eq_frame found
    have covers := s.covers l
    have positive := s.positive
    rw [List.length_drop]
    omega
  stable := by
    intro l message rest more found
    obtain ⟨headed, small, whole, rfl, rfl⟩ := cut_eq_frame found
    have same := s.headed more headed
    have longer : (l ++ more).length = l.length + more.length := List.length_append
    rw [cut_of_whole (by omega) (by omega) (by omega), same, List.take_append_of_le_length whole,
      List.drop_append_of_le_length whole]
  lost_stable := by
    intro l more found
    obtain ⟨headed, tooMuch⟩ := cut_eq_lost found
    have same := s.headed more headed
    unfold cut
    rw [if_neg (by rw [List.length_append]; omega), if_pos (by omega)]
  prompt := by
    intro l message rest found
    obtain ⟨headed, small, whole, rfl, rfl⟩ := cut_eq_frame found
    have size : (l.take (s.total l)).length = s.total l := List.length_take_of_le whole
    have covers := s.covers l
    have same : s.total (l.take (s.total l)) = s.total l := by
      have longer := s.headed (l.drop (s.total l)) (show s.header ≤ (l.take (s.total l)).length by omega)
      rw [List.take_append_drop] at longer
      exact longer.symm
    refine ⟨l.take (s.total l), (List.take_append_drop _ _).symm, ?_⟩
    rw [cut_of_whole (by omega) (by omega) (by omega), same, List.take_take, Nat.min_self]
    congr
    exact List.drop_of_length_le (by omega)

theorem cut_nil : s.framer.cut [] = .more :=
  if_pos s.positive

/-- A frame that can be held has its header within the limit. -/
theorem quiet : s.framer.Quiet s.limit := by
  intro l waiting
  have found : s.cut l = .more := waiting
  unfold cut at found
  split at found
  · rename_i short
    by_cases fits : s.header ≤ s.limit
    · exact Or.inl (by omega)
    · refine Or.inr fun part inside => if_pos ?_
      have le := inside.length_le
      omega
  · split at found
    · cases found
    · split at found
      · exact Or.inl (by omega)
      · cases found

/-- A whole frame at the front, its header within it. -/
theorem cut_wire {wire : List α} (more : List α) (size : s.total wire = wire.length) (small : wire.length ≤ s.limit) :
    s.framer.cut (wire ++ more) = .frame (s.message wire) more := by
  have covers := s.covers wire
  have same := s.headed more (show s.header ≤ wire.length by omega)
  have longer : (wire ++ more).length = wire.length + more.length := List.length_append
  show s.cut (wire ++ more) = _
  rw [cut_of_whole (by omega) (by omega) (by omega), same, size, List.take_left, List.drop_left]

/-- Frames put one after the other are cut as they are. -/
theorem frames_flatten {wires : List (List α)} (sizes : ∀ wire ∈ wires, s.total wire = wire.length)
    (small : ∀ wire ∈ wires, wire.length ≤ s.limit) :
    s.framer.Frames s.limit wires.flatten (wires.flatMap fun wire => (s.message wire).toList) [] := by
  induction wires with
  | nil => exact .nil s.cut_nil
  | cons wire wires ih =>
    have fits := small wire List.mem_cons_self
    refine .cons (s.cut_wire wires.flatten (sizes wire List.mem_cons_self) fits) ?_
      (ih (fun w member => sizes w (List.mem_cons_of_mem _ member)) fun w member => small w (List.mem_cons_of_mem _ member))
    rw [List.flatten_cons, List.length_append]
    omega

end Sized
