import OpenAvc.Panels.Cookies
import OpenAvc.Run.Machine

namespace OpenAvc.Panels

/-! What has happened, as an approval counts it. -/

inductive Event
  | given (id secret : Text)
  | approved (id secret : Text) (time : Int)
  | revoked (id : Text)
  | restarted
  deriving DecidableEq

/-- The secret a device's approval issued; `none` for one that is not approved, or was revoked since. -/
def issuedSecret : List Event → Text → Option Text
  | [], _ => none
  | .approved d secret _ :: log, id => if d = id then some secret else issuedSecret log id
  | .revoked d :: log, id => if d = id then none else issuedSecret log id
  | .given _ _ :: log, id => issuedSecret log id
  | .restarted :: log, id => issuedSecret log id

/-- What has happened in this process. -/
def sinceStart (log : List Event) : List Event :=
  log.takeWhile fun e => e ≠ .restarted

def Event.secret? : Event → Option Text
  | .given _ secret => some secret
  | .approved _ secret _ => some secret
  | _ => none

def Event.device? : Event → Option Text
  | .given id _ => some id
  | .approved id _ _ => some id
  | .revoked id => some id
  | .restarted => none

/-- The secrets drawn so far. -/
def secretsOf (log : List Event) : List Text := log.filterMap Event.secret?

structure State where
  store : Store := {}
  log : List Event := []

inductive Call
  | checkIn (value : Option Text) (address userAgent : Text) (now : Now) (draw : Store.Draw)
  | approve (id : Text) (name : Option Text) (approvedBy : Text) (now : Now) (secret salt : Text)
  | markDelivered (id : Text) (now : Now)
  | deny (id : Text) (now : Now)
  | revoke (id : Text)
  | rename (id name : Text)
  | touch (id : Text) (now : Now)
  | expire (now : Int)
  | restart

section

variable (L : Library)

/-- A secret and a salt as they are drawn: never a secret from before. -/
def FreshSecret (log : List Event) (secret salt : Text) : Prop :=
  secret ≠ [] ∧ secret ∉ secretsOf log ∧ L.base64 salt = true ∧ salt ≠ []

/-- What a new record draws: an id that was never drawn, and a code that no
waiting record shows. -/
def FreshDraw (s : State) (draw : Store.Draw) : Prop :=
  drawsId draw.id = true ∧ some draw.id ∉ s.log.map Event.device? ∧ FreshSecret L s.log draw.secret draw.salt ∧
    draw.code < 1000000 ∧ formatCode draw.code ∉ s.store.liveCodes

instance (log : List Event) (secret salt : Text) : Decidable (FreshSecret L log secret salt) :=
  inferInstanceAs (Decidable (_ ∧ _))

instance (s : State) (draw : Store.Draw) : Decidable (FreshDraw L s draw) :=
  inferInstanceAs (Decidable (_ ∧ _))

/-- One call, and what it adds to the history. -/
def next (s : State) : Call → Option State
  | .checkIn value address userAgent now draw =>
    let r := s.store.checkIn L value address userAgent now draw
    if r.1.created then
      if FreshDraw L s draw then some ⟨r.2, .given draw.id draw.secret :: s.log⟩ else none
    else some ⟨r.2, s.log⟩
  | .approve id name approvedBy now secret salt =>
    let r := s.store.approve L id name approvedBy now secret salt
    if (s.store.devices.lookup id).any fun d => d.status ≠ .approved then
      if FreshSecret L s.log secret salt then some ⟨r.2, .approved id secret now.monotonic :: s.log⟩ else none
    else some ⟨r.2, s.log⟩
  | .markDelivered id now => some ⟨s.store.markDelivered id now, s.log⟩
  | .deny id now => some ⟨(s.store.deny id now).2, s.log⟩
  | .revoke id =>
    some ⟨(s.store.revoke id).2, if (s.store.devices.lookup id).isSome then .revoked id :: s.log else s.log⟩
  | .rename id name => some ⟨(s.store.rename id name).2, s.log⟩
  | .touch id now => some ⟨s.store.touch id now, s.log⟩
  | .expire now => some ⟨(s.store.expire now).2, s.log⟩
  | .restart => some ⟨s.store.restart, .restarted :: s.log⟩

/-- A store without a file, and every call on it. -/
def machine : Run.Machine State Call where
  init s := s = {}
  next := next L

end

variable {L : Library} {log : List Event} {devices devices' : List (Text × PanelDevice)}

/-! What holds of the records at any time. -/

/-- What approvals depend on in a record. -/
def PanelDevice.core (d : PanelDevice) : PanelDevice :=
  { id := d.id
    status := d.status
    address := d.address
    secretHash := d.secretHash
    code := d.code
    handoffHash := d.handoffHash
    handoffSecret := d.handoffSecret
    handoffUntil := d.handoffUntil }

def cores (devices : List (Text × PanelDevice)) : List (Text × PanelDevice) :=
  devices.map fun u => (u.1, u.2.core)

/-- A device holds the secret it was given while it waits, the one its approval
issued afterwards, and for a while the hash of the former. -/
structure Record (L : Library) (log : List Event) (id : Text) (d : PanelDevice) : Prop where
  named : d.id = id
  drawn : drawsId id = true
  asked : ∃ secret, .given id secret ∈ log
  waiting : d.status ≠ .approved → issuedSecret log id = none ∧ d.handoffHash = [] ∧
    ∃ secret, .given id secret ∈ log ∧ Hashes L secret d.secretHash
  admitted : d.status = .approved → ∃ secret, issuedSecret log id = some secret ∧ Hashes L secret d.secretHash ∧
    (d.handoffHash ≠ [] → d.handoffSecret = secret ∧ ∃ held time, .given id held ∈ log ∧
      Hashes L held d.handoffHash ∧ .approved id secret time ∈ sinceStart log ∧ d.handoffUntil = time + handoffTtl)

def pendingsOf (devices : List (Text × PanelDevice)) : List PanelDevice :=
  (devices.map Prod.snd).filter fun d => d.status = .pending

def liveCodesOf (devices : List (Text × PanelDevice)) : List Text :=
  ((devices.map Prod.snd).filter PanelDevice.live).map PanelDevice.code

structure Book (L : Library) (log : List Event) (devices : List (Text × PanelDevice)) : Prop where
  keys : (devices.map Prod.fst).Nodup
  records : ∀ u ∈ devices, Record L log u.1 u.2
  present : ∀ id secret, issuedSecret log id = some secret → ∃ d, (id, d) ∈ devices ∧ d.status = .approved
  pending : (pendingsOf devices).length ≤ maxPending
  address : ∀ a, ((pendingsOf devices).filter fun d => d.address = a).length ≤ maxPendingPerAddress
  codes : (liveCodesOf devices).Nodup

theorem Record.core_iff {id : Text} {d : PanelDevice} : Record L log id d.core ↔ Record L log id d :=
  ⟨fun ⟨a, b, c, e, f⟩ => ⟨a, b, c, e, f⟩, fun ⟨a, b, c, e, f⟩ => ⟨a, b, c, e, f⟩⟩

theorem book_cores : Book L log (cores devices) ↔ Book L log devices := by
  have keys : (cores devices).map Prod.fst = devices.map Prod.fst := by simp [cores, Function.comp_def]
  have pendings : pendingsOf (cores devices) = (pendingsOf devices).map PanelDevice.core := by
    simp [pendingsOf, cores, List.filter_map, Function.comp_def, PanelDevice.core]
  have codes : liveCodesOf (cores devices) = liveCodesOf devices := by
    simp [liveCodesOf, cores, List.filter_map, Function.comp_def, PanelDevice.core, PanelDevice.live]
  have records : (∀ u ∈ cores devices, Record L log u.1 u.2) ↔ ∀ u ∈ devices, Record L log u.1 u.2 := by
    unfold cores
    rw [List.forall_mem_map]
    simp only [Record.core_iff]
  have present : ∀ id, (∃ d, (id, d) ∈ cores devices ∧ d.status = .approved) ↔
      ∃ d, (id, d) ∈ devices ∧ d.status = .approved := by
    intro id
    simp only [cores, List.mem_map, Prod.mk.injEq]
    constructor
    · rintro ⟨_, ⟨u, member, rfl, rfl⟩, status⟩
      exact ⟨u.2, member, status⟩
    · rintro ⟨d, member, status⟩
      exact ⟨d.core, ⟨(id, d), member, rfl, rfl⟩, status⟩
  have address : ∀ a, ((pendingsOf (cores devices)).filter fun d => d.address = a).length =
      ((pendingsOf devices).filter fun d => d.address = a).length := by
    intro a
    rw [pendings, List.filter_map, List.length_map]
    rfl
  constructor
  · rintro ⟨h₁, h₂, h₃, h₄, h₅, h₆⟩
    refine ⟨keys ▸ h₁, records.mp h₂, fun id secret issued => (present id).mp (h₃ id secret issued), ?_, ?_, codes ▸ h₆⟩
    · simpa [pendings] using h₄
    · exact fun a => address a ▸ h₅ a
  · rintro ⟨h₁, h₂, h₃, h₄, h₅, h₆⟩
    refine ⟨keys ▸ h₁, records.mpr h₂, fun id secret issued => (present id).mpr (h₃ id secret issued), ?_, ?_, ?_⟩
    · simpa [pendings] using h₄
    · exact fun a => (address a).symm ▸ h₅ a
    · exact codes.symm ▸ h₆

theorem Book.congr (book : Book L log devices) (same : cores devices' = cores devices) : Book L log devices' := by
  rw [← book_cores, same, book_cores]
  exact book

theorem Book.lookup (book : Book L log devices) {id : Text} {d : PanelDevice} :
    devices.lookup id = some d ↔ (id, d) ∈ devices :=
  ⟨List.mem_of_lookup_eq_some, fun member => List.lookup_of_mem book.keys member⟩

theorem Book.own (book : Book L log devices) {id : Text} {d : PanelDevice} (here : devices.lookup id = some d)
    {u : Text × PanelDevice} (member : u ∈ devices) (same : u.1 = id) : u.2 = d := by
  have there := List.lookup_of_mem book.keys member
  rw [same, here] at there
  exact (Option.some.inj there).symm

/-! Records that change their state, or go. -/

/-- No record comes to wait, and those that still do keep their address and code. -/
structure Thins (devices : List (Text × PanelDevice)) (g : Text × PanelDevice → Option (Text × PanelDevice)) : Prop where
  key : ∀ u ∈ devices, ∀ w, g u = some w → w.1 = u.1
  pending : ∀ u ∈ devices, ∀ w, g u = some w → w.2.status = .pending →
    u.2.status = .pending ∧ w.2.address = u.2.address
  live : ∀ u ∈ devices, ∀ w, g u = some w → w.2.live = true → u.2.live = true ∧ w.2.code = u.2.code

variable {g : Text × PanelDevice → Option (Text × PanelDevice)}

theorem Thins.tail {u : Text × PanelDevice} (thins : Thins (u :: devices) g) : Thins devices g :=
  ⟨fun v h => thins.key v (List.mem_cons_of_mem _ h), fun v h => thins.pending v (List.mem_cons_of_mem _ h),
    fun v h => thins.live v (List.mem_cons_of_mem _ h)⟩

theorem Thins.keys (thins : Thins devices g) :
    ((devices.filterMap g).map Prod.fst).Sublist (devices.map Prod.fst) := by
  induction devices with
  | nil => exact List.Sublist.refl _
  | cons u devices ih =>
    rw [List.filterMap_cons]
    cases here : g u with
    | none => exact (ih thins.tail).cons _
    | some w =>
      have same := thins.key u List.mem_cons_self w here
      simp only [List.map_cons, same]
      exact (ih thins.tail).cons_cons _

theorem Thins.addresses (thins : Thins devices g) :
    ((pendingsOf (devices.filterMap g)).map PanelDevice.address).Sublist
      ((pendingsOf devices).map PanelDevice.address) := by
  induction devices with
  | nil => exact List.Sublist.refl _
  | cons u devices ih =>
    have rest := ih thins.tail
    have wider : ((pendingsOf devices).map PanelDevice.address).Sublist
        ((pendingsOf (u :: devices)).map PanelDevice.address) := by
      unfold pendingsOf
      rw [List.map_cons]
      exact (List.Sublist.filter _ (List.sublist_cons_self _ _)).map _
    rw [List.filterMap_cons]
    cases here : g u with
    | none => exact rest.trans wider
    | some w =>
      by_cases waits : w.2.status = .pending
      · obtain ⟨before, same⟩ := thins.pending u List.mem_cons_self w here waits
        simp only [pendingsOf, List.map_cons, List.filter_cons, waits, before, decide_true, if_true, same]
        exact rest.cons_cons _
      · have skipped : pendingsOf (w :: devices.filterMap g) = pendingsOf (devices.filterMap g) := by
          simp [pendingsOf, waits]
        dsimp only
        rw [skipped]
        exact rest.trans wider

theorem Thins.codes (thins : Thins devices g) :
    (liveCodesOf (devices.filterMap g)).Sublist (liveCodesOf devices) := by
  induction devices with
  | nil => exact List.Sublist.refl _
  | cons u devices ih =>
    have rest := ih thins.tail
    have wider : (liveCodesOf devices).Sublist (liveCodesOf (u :: devices)) := by
      unfold liveCodesOf
      rw [List.map_cons]
      exact (List.Sublist.filter _ (List.sublist_cons_self _ _)).map _
    rw [List.filterMap_cons]
    cases here : g u with
    | none => exact rest.trans wider
    | some w =>
      by_cases shows' : w.2.live = true
      · obtain ⟨before, same⟩ := thins.live u List.mem_cons_self w here shows'
        simp only [liveCodesOf, List.map_cons, List.filter_cons, shows', before, if_true, same]
        exact rest.cons_cons _
      · have skipped : liveCodesOf (w :: devices.filterMap g) = liveCodesOf (devices.filterMap g) := by
          simp [liveCodesOf, shows']
        dsimp only
        rw [skipped]
        exact rest.trans wider

theorem count_address (a : Text) (devices : List (Text × PanelDevice)) :
    ((pendingsOf devices).filter fun d => d.address = a).length =
      (((pendingsOf devices).map PanelDevice.address).filter fun b => b = a).length := by
  rw [List.filter_map, List.length_map]
  rfl

/-- The records after a change, once each is known to be in order. -/
theorem Book.thin {log' : List Event} (book : Book L log devices) (thins : Thins devices g)
    (records : ∀ u ∈ devices, ∀ w, g u = some w → Record L log' u.1 w.2)
    (present : ∀ id secret, issuedSecret log' id = some secret →
      ∃ d, (id, d) ∈ devices.filterMap g ∧ d.status = .approved) : Book L log' (devices.filterMap g) where
  keys := book.keys.sublist thins.keys
  records := by
    intro w member
    obtain ⟨u, before, here⟩ := List.mem_filterMap.mp member
    rw [thins.key u before w here]
    exact records u before w here
  present := present
  pending := by
    have shorter := thins.addresses.length_le
    rw [List.length_map, List.length_map] at shorter
    exact shorter.trans book.pending
  address := by
    intro a
    rw [count_address]
    exact ((thins.addresses.filter _).length_le.trans_eq (count_address a devices).symm).trans (book.address a)
  codes := book.codes.sublist thins.codes

/-- An event about one device leaves the others' records in order. -/
theorem Record.other {id : Text} {d : PanelDevice} {e : Event} (record : Record L log id d)
    (other : e.device? ≠ some id) (started : e ≠ .restarted) : Record L (e :: log) id d := by
  have issued : issuedSecret (e :: log) id = issuedSecret log id := by
    cases e with
    | given | restarted => rfl
    | approved d' | revoked d' =>
      have differs : d' ≠ id := fun same => other (congrArg some same)
      rw [issuedSecret, if_neg differs]
  have recent : sinceStart (e :: log) = e :: sinceStart log := by
    simp [sinceStart, started]
  refine ⟨record.named, record.drawn, ?_, fun waits => ?_, fun approved => ?_⟩
  · obtain ⟨secret, there⟩ := record.asked
    exact ⟨secret, List.mem_cons_of_mem _ there⟩
  · obtain ⟨none, empty, secret, there, hashes⟩ := record.waiting waits
    exact ⟨issued.trans none, empty, secret, List.mem_cons_of_mem _ there, hashes⟩
  · obtain ⟨secret, some', hashes, handoff⟩ := record.admitted approved
    refine ⟨secret, issued.trans some', hashes, fun held => ?_⟩
    obtain ⟨same, secret', time, there, hashes', approval, until'⟩ := handoff held
    exact ⟨same, secret', time, List.mem_cons_of_mem _ there, hashes', recent ▸ List.mem_cons_of_mem _ approval, until'⟩

/-! The file. -/

/-- The records a process starts with. -/
def readBack (file : File) : List (Text × PanelDevice) := (Store.load { file }).devices

/-- The file gives back the approved records, each with its hash. -/
def Backed (devices : List (Text × PanelDevice)) (file : File) : Prop :=
  ∀ id, ((readBack file).lookup id).map PanelDevice.secretHash =
    ((devices.lookup id).filter fun d => d.status = .approved).map PanelDevice.secretHash

theorem fromDisk_some {raw : Json} {d : PanelDevice} (read : PanelDevice.fromDisk raw = some d) :
    d.status = .approved ∧ d.handoffHash = [] := by
  unfold PanelDevice.fromDisk at read
  split at read
  · split at read
    · cases read
    · cases read
      exact ⟨rfl, rfl⟩
  · cases read

theorem readBack_cases (file : File) : readBack file = [] ∨
    ∃ entries : List Json, readBack file = entries.foldl (fun devices raw => match PanelDevice.fromDisk raw with
      | some device => Dict.set devices device.id device
      | none => devices) [] := by
  unfold readBack Store.load
  cases file with
  | missing => exact Or.inl rfl
  | illegible => exact Or.inl rfl
  | json data =>
    dsimp only
    split
    · rename_i entries _
      exact Or.inr ⟨entries, rfl⟩
    · exact Or.inl rfl

/-- What is read back is approved, under its own id, and has no handoff. -/
theorem readBack_sound (file : File) : ((readBack file).map Prod.fst).Nodup ∧
    ∀ u ∈ readBack file, u.2.id = u.1 ∧ u.2.status = .approved ∧ u.2.handoffHash = [] := by
  have walk : ∀ (entries : List Json) (d : List (Text × PanelDevice)), (d.map Prod.fst).Nodup →
      (∀ u ∈ d, u.2.id = u.1 ∧ u.2.status = .approved ∧ u.2.handoffHash = []) →
      let read := entries.foldl (fun devices raw => match PanelDevice.fromDisk raw with
        | some device => Dict.set devices device.id device
        | none => devices) d
      (read.map Prod.fst).Nodup ∧ ∀ u ∈ read, u.2.id = u.1 ∧ u.2.status = .approved ∧ u.2.handoffHash = [] := by
    intro entries
    induction entries with
    | nil => exact fun d distinct sound => ⟨distinct, sound⟩
    | cons raw entries ih =>
      intro d distinct sound
      rw [List.foldl_cons]
      cases read : PanelDevice.fromDisk raw with
      | none => exact ih d distinct sound
      | some device =>
        refine ih _ (Dict.nodup_set distinct _ _) fun u member => ?_
        rcases Dict.mem_set member with rfl | old
        · exact ⟨rfl, fromDisk_some read⟩
        · exact sound u old
  rcases readBack_cases file with none | ⟨entries, read⟩
  · rw [none]
    exact ⟨List.nodup_nil, fun _ h => absurd h List.not_mem_nil⟩
  · rw [read]
    exact walk entries [] List.nodup_nil fun _ h => absurd h List.not_mem_nil

/-- A file that has just been saved gives back every approved record. -/
theorem Book.backed (book : Book L log devices) : Backed devices (.json (Store.fileContent devices)) := by
  intro id
  have approved : ∀ d, d ∈ (((devices.map Prod.snd).filter fun d => d.status = .approved).insertionSort
      fun d d' => [d.approvedAt.getD [], d.id] ≤ [d'.approvedAt.getD [], d'.id]) ↔
        (d.id, d) ∈ devices ∧ d.status = .approved := by
    intro d
    rw [List.mem_insertionSort, List.mem_filter, List.mem_map, decide_eq_true_eq]
    refine and_congr_left fun _ => ⟨?_, fun member => ⟨_, member, rfl⟩⟩
    rintro ⟨u, member, rfl⟩
    rw [(book.records u member).named]
    exact member
  have entries : readBack (.json (Store.fileContent devices)) =
      ((((devices.map Prod.snd).filter fun d => d.status = .approved).insertionSort
        fun d d' => [d.approvedAt.getD [], d.id] ≤ [d'.approvedAt.getD [], d'.id]).map PanelDevice.toDisk).foldl
        (fun devices raw => match PanelDevice.fromDisk raw with
          | some device => Dict.set devices device.id device
          | none => devices) [] := rfl
  rw [entries]
  generalize ((devices.map Prod.snd).filter fun d => d.status = .approved).insertionSort
    (fun d d' => [d.approvedAt.getD [], d.id] ≤ [d'.approvedAt.getD [], d'.id]) = sorted at approved ⊢
  have readable : ∀ d ∈ sorted, PanelDevice.fromDisk d.toDisk = some (reloaded d) := by
    intro d member
    obtain ⟨there, status⟩ := (approved d).mp member
    have record := book.records _ there
    obtain ⟨_, _, hashes, _⟩ := record.admitted status
    exact fromDisk_toDisk (plain_of_drawsId record.drawn).1 hashes.nonempty
  have walk : ∀ (l : List PanelDevice) (d : List (Text × PanelDevice)),
      (∀ d ∈ l, PanelDevice.fromDisk d.toDisk = some (reloaded d)) →
      (l.map PanelDevice.toDisk).foldl (fun devices raw => match PanelDevice.fromDisk raw with
        | some device => Dict.set devices device.id device
        | none => devices) d = l.foldl (fun devices d => Dict.set devices d.id (reloaded d)) d := by
    intro l
    induction l with
    | nil => exact fun _ _ => rfl
    | cons a l ih =>
      intro d readable
      rw [List.map_cons, List.foldl_cons, List.foldl_cons, readable a List.mem_cons_self]
      exact ih _ fun b member => readable b (List.mem_cons_of_mem _ member)
  rw [walk sorted [] readable]
  rcases Dict.lookup_walk PanelDevice.id reloaded sorted [] id with ⟨none, absent⟩ | ⟨d, member, rfl, found⟩
  · rw [none]
    cases here : devices.lookup id with
    | none => rfl
    | some d =>
      by_cases status : d.status = .approved
      · have there := book.lookup.mp here
        have named := (book.records _ there).named
        refine absurd named (absent d ((approved d).mpr ⟨?_, status⟩))
        rwa [named]
      · simp [status]
  · obtain ⟨there, status⟩ := (approved d).mp member
    rw [found, book.lookup.mpr there]
    simp [status, reloaded]

/-- What holds in every state. -/
structure Sound (L : Library) (s : State) : Prop where
  book : Book L s.log s.store.devices
  backed : Backed s.store.devices s.store.file
  secrets : (secretsOf s.log).Nodup

variable {s : State} {t : Store}

theorem lookup_cores (devices : List (Text × PanelDevice)) (i : Text) :
    (cores devices).lookup i = (devices.lookup i).map PanelDevice.core :=
  List.lookup_map_items (f := id) Function.injective_id (fun _ d => PanelDevice.core d) i devices

theorem Backed.congr {file : File} (backed : Backed devices file) (same : cores devices' = cores devices) :
    Backed devices' file := by
  intro id
  rw [backed id]
  have lookups : (devices'.lookup id).map PanelDevice.core = (devices.lookup id).map PanelDevice.core := by
    rw [← lookup_cores, ← lookup_cores, same]
  cases here : devices.lookup id with
  | none =>
    rw [here] at lookups
    rw [Option.map_eq_none_iff.mp lookups]
  | some d =>
    rw [here, Option.map_some, Option.map_eq_some_iff] at lookups
    obtain ⟨d', there, alike⟩ := lookups
    have status : d'.status = d.status := by
      show d'.core.status = d.core.status
      rw [alike]
    have hash : d'.secretHash = d.secretHash := by
      show d'.core.secretHash = d.core.secretHash
      rw [alike]
    rw [there]
    simp only [Option.filter_some, status, decide_eq_true_eq]
    split
    · exact congrArg some hash.symm
    · rfl

/-- A change that approvals do not depend on, written to the file or not. -/
theorem Sound.of_cores {t' : Store} (sound : Sound L ⟨t, log⟩) (same : cores t'.devices = cores t.devices)
    (file : t'.file = t.file ∨ t'.file = .json (Store.fileContent t'.devices)) : Sound L ⟨t', log⟩ := by
  have book : Book L log t'.devices := sound.book.congr same
  refine ⟨book, ?_, sound.secrets⟩
  show Backed t'.devices t'.file
  rcases file with kept | saved
  · rw [kept]
    exact sound.backed.congr same
  · rw [saved]
    exact book.backed

theorem cores_update (t : Store) (id : Text) {f : PanelDevice → PanelDevice} (alike : ∀ d, (f d).core = d.core) :
    cores (t.update id f).devices = cores t.devices := by
  unfold cores Store.update
  rw [List.map_map]
  refine List.map_congr_left fun u _ => ?_
  by_cases here : u.1 = id
  · simp [here, alike]
  · simp [here]

theorem Sound.update (sound : Sound L ⟨t, log⟩) (id : Text) {f : PanelDevice → PanelDevice}
    (alike : ∀ d, (f d).core = d.core) : Sound L ⟨t.update id f, log⟩ :=
  sound.of_cores (cores_update t id alike) (Or.inl rfl)

theorem Sound.save (sound : Sound L ⟨t, log⟩) : Sound L ⟨t.save, log⟩ :=
  sound.of_cores rfl (Or.inr rfl)

theorem Sound.touchDevice (sound : Sound L ⟨t, log⟩) (device : PanelDevice) (now : Now) :
    Sound L ⟨t.touchDevice device now, log⟩ := by
  unfold Store.touchDevice
  split
  · exact (sound.update device.id (by intro d; rfl)).save
  · exact sound.update device.id (by intro d; rfl)

theorem Sound.checkInKnown (sound : Sound L ⟨t, log⟩) (value : Option Text) (now : Now) (device : PanelDevice)
    (how : Store.How) : Sound L ⟨(t.checkInKnown L value now device how).2, log⟩ := by
  unfold Store.checkInKnown
  split
  · split
    · exact (sound.update device.id (by intro d; rfl)).save
    · split
      · exact (sound.update device.id (by intro d; rfl)).save
      · exact (sound.update device.id (by intro d; rfl)).touchDevice device now
  · exact sound.update device.id (by intro d; rfl)
  · exact sound.update device.id (by intro d; rfl)

theorem Sound.touch (sound : Sound L ⟨t, log⟩) (id : Text) (now : Now) : Sound L ⟨t.touch id now, log⟩ := by
  unfold Store.touch
  split
  · split
    · exact sound
    · exact sound.touchDevice _ now
  · exact sound

theorem Sound.markDelivered (sound : Sound L ⟨t, log⟩) (id : Text) (now : Now) :
    Sound L ⟨t.markDelivered id now, log⟩ := by
  unfold Store.markDelivered
  split
  · split
    · exact (sound.update id (by intro d; rfl)).save
    · exact sound
  · exact sound

theorem Sound.rename (sound : Sound L ⟨t, log⟩) (id name : Text) : Sound L ⟨(t.rename id name).2, log⟩ := by
  unfold Store.rename
  split
  · exact sound
  · split
    · exact sound
    · dsimp only
      split
      · exact (sound.update id (by intro d; rfl)).save
      · exact sound.update id (by intro d; rfl)

/-! Calls that change what a device may do. -/

theorem lookup_update (t : Store) (id id' : Text) (f : PanelDevice → PanelDevice) :
    (t.update id f).devices.lookup id' = if id' = id then (t.devices.lookup id').map f else t.devices.lookup id' := by
  have moved := List.lookup_map_items (f := fun k : Text => k) (fun _ _ same => same)
    (fun k d => if k = id then f d else d) id' t.devices
  have items : (t.update id f).devices = t.devices.map fun u => (u.1, if u.1 = id then f u.2 else u.2) := by
    refine List.map_congr_left fun u _ => ?_
    split <;> rfl
  rw [items, moved]
  by_cases here : id' = id
  · simp only [if_pos here]
  · simp only [if_neg here, Option.map_id']

/-- The change of one device, as a change of all. -/
def changeOf (id : Text) (f : PanelDevice → PanelDevice) (u : Text × PanelDevice) : Option (Text × PanelDevice) :=
  some (if u.1 = id then (u.1, f u.2) else u)

theorem update_devices (t : Store) (id : Text) (f : PanelDevice → PanelDevice) :
    (t.update id f).devices = t.devices.filterMap (changeOf id f) := by
  rw [show changeOf id f = some ∘ fun u => if u.1 = id then (u.1, f u.2) else u from rfl, List.filterMap_eq_map]
  rfl

theorem changeOf_some {id : Text} {f : PanelDevice → PanelDevice} {u w : Text × PanelDevice}
    (change : changeOf id f u = some w) : u.1 = id ∧ w = (u.1, f u.2) ∨ u.1 ≠ id ∧ w = u := by
  unfold changeOf at change
  cases change
  by_cases here : u.1 = id
  · exact Or.inl ⟨here, if_pos here⟩
  · exact Or.inr ⟨here, if_neg here⟩

theorem mem_change (id : Text) (f : PanelDevice → PanelDevice) {u : Text × PanelDevice} (member : u ∈ devices) :
    (u.1, if u.1 = id then f u.2 else u.2) ∈ devices.filterMap (changeOf id f) := by
  refine List.mem_filterMap.mpr ⟨u, member, ?_⟩
  unfold changeOf
  split <;> rfl

/-- A device that stops waiting, or waits on under the same code and address. -/
theorem thins_changeOf {id : Text} {f : PanelDevice → PanelDevice}
    (pending : ∀ u ∈ devices, u.1 = id → (f u.2).status = .pending → u.2.status = .pending ∧ (f u.2).address = u.2.address)
    (live : ∀ u ∈ devices, u.1 = id → (f u.2).live = true → u.2.live = true ∧ (f u.2).code = u.2.code) :
    Thins devices (changeOf id f) where
  key := by
    intro u _ w change
    rcases changeOf_some change with ⟨_, rfl⟩ | ⟨_, rfl⟩ <;> rfl
  pending := by
    intro u member w change waits
    rcases changeOf_some change with ⟨here, rfl⟩ | ⟨_, rfl⟩
    · exact pending u member here waits
    · exact ⟨waits, rfl⟩
  live := by
    intro u member w change shows'
    rcases changeOf_some change with ⟨here, rfl⟩ | ⟨_, rfl⟩
    · exact live u member here shows'
    · exact ⟨shows', rfl⟩

/-- An approval: the device's secret is a new one, and the one it held is kept for the handoff. -/
theorem Sound.approved (sound : Sound L ⟨t, log⟩) {id : Text} {d : PanelDevice} (here : t.devices.lookup id = some d)
    (waits : d.status ≠ .approved) {secret salt : Text} (fresh : FreshSecret L log secret salt) (name : Option Text)
    (approvedBy : Text) (now : Now) :
    Sound L ⟨(t.update id (Store.approveDevice L name approvedBy now secret salt)).save,
      .approved id secret now.monotonic :: log⟩ := by
  obtain ⟨nonempty, unused, encoded, salted⟩ := fresh
  have record := sound.book.records _ (sound.book.lookup.mp here)
  have own := fun u member => sound.book.own (u := u) here member
  have book : Book L (.approved id secret now.monotonic :: log)
      (t.devices.filterMap (changeOf id (Store.approveDevice L name approvedBy now secret salt))) := by
    refine sound.book.thin (thins_changeOf (fun _ _ _ waits => by simp [Store.approveDevice] at waits)
      fun _ _ _ shows' => by simp [Store.approveDevice, PanelDevice.live] at shows') ?_ ?_
    · intro u member w change
      rcases changeOf_some change with ⟨rfl, rfl⟩ | ⟨other, rfl⟩
      · have same := own u member rfl
        obtain ⟨_, _, held, given, hashes⟩ := record.waiting waits
        refine ⟨same ▸ record.named, record.drawn, ?_, fun waits => absurd rfl waits, fun _ => ?_⟩
        · exact ⟨held, List.mem_cons_of_mem _ given⟩
        · refine ⟨secret, by rw [issuedSecret, if_pos rfl], ⟨salt, encoded, salted, nonempty, rfl⟩, fun _ => ?_⟩
          refine ⟨rfl, held, now.monotonic, List.mem_cons_of_mem _ given, ?_, ?_, rfl⟩
          · show Hashes L held u.2.secretHash
            rw [same]
            exact hashes
          · simp [sinceStart]
      · exact (sound.book.records w member).other (by simpa [Event.device?] using Ne.symm other) nofun
    · intro id' secret' issued
      by_cases same : id = id'
      · subst same
        refine ⟨Store.approveDevice L name approvedBy now secret salt d, ?_, rfl⟩
        have member := mem_change id (Store.approveDevice L name approvedBy now secret salt)
          (sound.book.lookup.mp here)
        simpa using member
      · rw [issuedSecret, if_neg same] at issued
        obtain ⟨d', member, status⟩ := sound.book.present id' secret' issued
        have changed := mem_change id (Store.approveDevice L name approvedBy now secret salt) member
        rw [if_neg (Ne.symm same)] at changed
        exact ⟨d', changed, status⟩
  rw [← update_devices] at book
  refine ⟨book, book.backed, ?_⟩
  show (secret :: secretsOf log).Nodup
  exact List.nodup_cons.mpr ⟨unused, sound.secrets⟩

/-- A denial of a device that is not approved. -/
theorem Sound.denied (sound : Sound L ⟨t, log⟩) {id : Text} {d : PanelDevice} (here : t.devices.lookup id = some d)
    (waits : d.status ≠ .approved) (now : Now) : Sound L ⟨t.update id (Store.denyDevice now), log⟩ := by
  have own := fun u member => sound.book.own (u := u) here member
  have live : d.live = true := by
    unfold PanelDevice.live
    cases status : d.status with
    | approved => exact absurd status waits
    | pending => rfl
    | denied => rfl
  have book : Book L log (t.devices.filterMap (changeOf id (Store.denyDevice now))) := by
    refine sound.book.thin (thins_changeOf (fun _ _ _ waits => by simp [Store.denyDevice] at waits)
      fun u member same _ => ?_) ?_ ?_
    · exact ⟨own u member same ▸ live, rfl⟩
    · intro u member w change
      rcases changeOf_some change with ⟨rfl, rfl⟩ | ⟨other, rfl⟩
      · have record := sound.book.records u member
        refine ⟨record.named, record.drawn, record.asked, fun _ => ?_, nofun⟩
        exact record.waiting (own u member rfl ▸ waits)
      · exact sound.book.records w member
    · intro id' secret issued
      obtain ⟨d', member, status⟩ := sound.book.present id' secret issued
      have changed := mem_change id (Store.denyDevice now) member
      have other : id' ≠ id := fun same => waits (own _ member same ▸ status)
      rw [if_neg other] at changed
      exact ⟨d', changed, status⟩
  rw [← update_devices] at book
  refine ⟨book, fun id' => ?_, sound.secrets⟩
  have backed := sound.backed id'
  show ((readBack t.file).lookup id').map _ = _
  rw [backed, lookup_update]
  by_cases same : id' = id
  · subst same
    rw [if_pos rfl, here]
    simp [Option.filter_some, waits, Store.denyDevice]
  · rw [if_neg same]

/-- A device that is forgotten. -/
theorem Sound.revoked (sound : Sound L ⟨t, log⟩) {id : Text} {d : PanelDevice} (here : t.devices.lookup id = some d) :
    Sound L ⟨(t.revoke id).2, .revoked id :: log⟩ := by
  have book : Book L (.revoked id :: log) (t.devices.filter fun u => u.1 ≠ id) := by
    have items : (t.devices.filter fun u => decide (u.1 ≠ id)) = t.devices.filterMap (Option.guard fun u => decide (u.1 ≠ id)) :=
      (congrFun List.filterMap_eq_filter _).symm
    have kept : ∀ {u w : Text × PanelDevice}, Option.guard (fun u => decide (u.1 ≠ id)) u = some w → u.1 ≠ id ∧ w = u := by
      intro u w stays
      obtain ⟨same, other⟩ := Option.guard_eq_some_iff.mp stays
      exact ⟨of_decide_eq_true other, same.symm⟩
    rw [items]
    refine sound.book.thin ⟨?_, ?_, ?_⟩ ?_ ?_
    · rintro u _ w stays
      rw [(kept stays).2]
    · rintro u _ w stays waits
      obtain ⟨_, rfl⟩ := kept stays
      exact ⟨waits, rfl⟩
    · rintro u _ w stays shows'
      obtain ⟨_, rfl⟩ := kept stays
      exact ⟨shows', rfl⟩
    · intro u member w stays
      obtain ⟨other, rfl⟩ := kept stays
      exact (sound.book.records w member).other (by simpa [Event.device?] using Ne.symm other) nofun
    · intro id' secret issued
      by_cases same : id = id'
      · subst same
        rw [issuedSecret, if_pos rfl] at issued
        cases issued
      · rw [issuedSecret, if_neg same] at issued
        obtain ⟨d', member, status⟩ := sound.book.present id' secret issued
        refine ⟨d', List.mem_filterMap.mpr ⟨_, member, ?_⟩, status⟩
        exact Option.guard_eq_some_iff.mpr ⟨rfl, decide_eq_true (Ne.symm same)⟩
  unfold Store.revoke
  rw [here]
  dsimp only
  split
  · exact ⟨book, book.backed, sound.secrets⟩
  · rename_i waits
    refine ⟨book, fun id' => ?_, sound.secrets⟩
    have backed := sound.backed id'
    show ((readBack t.file).lookup id').map _ = _
    rw [backed, List.lookup_filter_keys (fun k => decide (k ≠ id))]
    by_cases same : id' = id
    · subst same
      rw [here]
      simp [Option.filter_some, waits]
    · rw [if_pos (decide_eq_true same)]

theorem lookup_filterMap {h : PanelDevice → Option PanelDevice} (distinct : (devices.map Prod.fst).Nodup) (id : Text) :
    (devices.filterMap fun u => (h u.2).map (u.1, ·)).lookup id = (devices.lookup id).bind h := by
  induction devices with
  | nil => rfl
  | cons u devices ih =>
    obtain ⟨key, d⟩ := u
    obtain ⟨apart, rest⟩ := List.nodup_cons.mp distinct
    rw [List.filterMap_cons]
    by_cases here : id = key
    · subst here
      have absent : devices.lookup id = none := List.lookup_eq_none_of_forall fun w member same =>
        apart (List.mem_map.mpr ⟨w, member, same⟩)
      cases left : h d with
      | none =>
        dsimp only [Option.map_none]
        rw [ih rest, absent, List.lookup_cons_self, Option.bind_some, left]
        rfl
      | some d' => simp [left]
    · have other : (id == key) = false := beq_eq_false_iff_ne.mpr here
      cases left : h d with
      | none => simp [ih rest, List.lookup_cons, other]
      | some d' => simp [ih rest, List.lookup_cons, other]

theorem expireDevice_some {now : Int} {d d' : PanelDevice} (left : Store.expireDevice now d = some d') :
    d' = d ∨ d.status = .approved ∧ d' = { d with handoffHash := [], handoffSecret := [], handoffUntil := 0 } := by
  unfold Store.expireDevice at left
  split at left
  · split at left
    · cases left
    · cases left
      exact Or.inl rfl
  · split at left
    · cases left
    · cases left
      exact Or.inl rfl
  · rename_i approved
    split at left
    · cases left
      exact Or.inr ⟨approved, rfl⟩
    · cases left
      exact Or.inl rfl

theorem expireDevice_approved (now : Int) {d : PanelDevice} (approved : d.status = .approved) :
    ∃ d', Store.expireDevice now d = some d' ∧ d'.status = .approved ∧ d'.secretHash = d.secretHash := by
  unfold Store.expireDevice
  rw [approved]
  dsimp only
  split
  · exact ⟨_, rfl, rfl, rfl⟩
  · exact ⟨_, rfl, approved, rfl⟩

theorem expireDevice_waiting {now : Int} {d d' : PanelDevice} (left : Store.expireDevice now d = some d')
    (waits : d.status ≠ .approved) : d'.status ≠ .approved := by
  rcases expireDevice_some left with rfl | ⟨approved, _⟩
  · exact waits
  · exact absurd approved waits

/-- Records that run out. -/
theorem Sound.expired (sound : Sound L ⟨t, log⟩) (now : Int) : Sound L ⟨(t.expire now).2, log⟩ := by
  have left : ∀ {u w : Text × PanelDevice}, (Store.expireDevice now u.2).map (u.1, ·) = some w →
      ∃ d', Store.expireDevice now u.2 = some d' ∧ w = (u.1, d') := by
    intro u w stays
    obtain ⟨d', here, rfl⟩ := Option.map_eq_some_iff.mp stays
    exact ⟨d', here, rfl⟩
  have book : Book L log (t.devices.filterMap fun u => (Store.expireDevice now u.2).map (u.1, ·)) := by
    refine sound.book.thin ⟨?_, ?_, ?_⟩ ?_ ?_
    · rintro u _ w stays
      obtain ⟨d', _, rfl⟩ := left stays
      rfl
    · rintro u _ w stays waits
      obtain ⟨d', here, rfl⟩ := left stays
      rcases expireDevice_some here with rfl | ⟨approved, rfl⟩
      · exact ⟨waits, rfl⟩
      · exact absurd (approved.symm.trans waits) nofun
    · rintro u _ w stays shows'
      obtain ⟨d', here, rfl⟩ := left stays
      rcases expireDevice_some here with rfl | ⟨approved, rfl⟩
      · exact ⟨shows', rfl⟩
      · exact ⟨shows', rfl⟩
    · intro u member w stays
      obtain ⟨d', here, rfl⟩ := left stays
      have record := sound.book.records u member
      rcases expireDevice_some here with rfl | ⟨approved, rfl⟩
      · exact record
      · refine ⟨record.named, record.drawn, record.asked, fun waits => absurd approved waits, fun _ => ?_⟩
        obtain ⟨secret, issued, hashes, _⟩ := record.admitted approved
        exact ⟨secret, issued, hashes, fun held => absurd rfl held⟩
    · intro id secret issued
      obtain ⟨d, member, status⟩ := sound.book.present id secret issued
      obtain ⟨d', here, status', _⟩ := expireDevice_approved now status
      exact ⟨d', List.mem_filterMap.mpr ⟨_, member, by rw [here]; rfl⟩, status'⟩
  refine ⟨book, fun id => ?_, sound.secrets⟩
  have backed := sound.backed id
  show ((readBack t.file).lookup id).map _ = (((t.devices.filterMap fun u => (Store.expireDevice now u.2).map (u.1, ·)).lookup id).filter _).map _
  rw [backed, lookup_filterMap sound.book.keys]
  cases here : t.devices.lookup id with
  | none => rfl
  | some d =>
    by_cases status : d.status = .approved
    · obtain ⟨d', there, status', hash⟩ := expireDevice_approved now status
      rw [Option.bind_some, there]
      simp [Option.filter_some, status, status', hash]
    · rw [Option.bind_some]
      cases there : Store.expireDevice now d with
      | none => simp [Option.filter_some, status]
      | some d' =>
        have status' := expireDevice_waiting there status
        simp [Option.filter_some, status, status']

/-- An id that was never drawn names no record and has no approval. -/
theorem Book.unknown (book : Book L log devices) {id : Text} (fresh : some id ∉ log.map Event.device?) :
    id ∉ devices.map Prod.fst ∧ issuedSecret log id = none := by
  have absent : id ∉ devices.map Prod.fst := by
    intro member
    obtain ⟨u, there, rfl⟩ := List.mem_map.mp member
    obtain ⟨secret, given⟩ := (book.records u there).asked
    exact fresh (List.mem_map.mpr ⟨_, given, rfl⟩)
  refine ⟨absent, ?_⟩
  cases issued : issuedSecret log id with
  | none => rfl
  | some secret =>
    obtain ⟨d, member, _⟩ := book.present id secret issued
    exact absurd (List.mem_map_of_mem (f := Prod.fst) member) absent

/-- A device that checks in for the first time. -/
theorem Sound.created (sound : Sound L ⟨t, log⟩) {draw : Store.Draw} (fresh : FreshDraw L ⟨t, log⟩ draw)
    {address : Text} (room : t.pendings.length < maxPending)
    (roomHere : (t.pendings.filter fun d => d.address = address).length < maxPendingPerAddress) (userAgent : Text)
    (now : Now) :
    Sound L ⟨{ t with devices := Dict.set t.devices draw.id (Store.newDevice L address userAgent now draw) },
      .given draw.id draw.secret :: log⟩ := by
  obtain ⟨drawn, unused, ⟨nonempty, unusedSecret, encoded, salted⟩, _, unusedCode⟩ := fresh
  obtain ⟨absent, none⟩ := sound.book.unknown unused
  have items : Dict.set t.devices draw.id (Store.newDevice L address userAgent now draw) =
      t.devices ++ [(draw.id, Store.newDevice L address userAgent now draw)] := Dict.set_of_not_mem absent _
  have pendings : pendingsOf (t.devices ++ [(draw.id, Store.newDevice L address userAgent now draw)]) =
      t.pendings ++ [Store.newDevice L address userAgent now draw] := by
    simp [pendingsOf, Store.pendings, Store.newDevice]
  have codes : liveCodesOf (t.devices ++ [(draw.id, Store.newDevice L address userAgent now draw)]) =
      t.liveCodes ++ [formatCode draw.code] := by
    simp [liveCodesOf, Store.liveCodes, Store.newDevice, PanelDevice.live]
  have book : Book L (.given draw.id draw.secret :: log)
      (t.devices ++ [(draw.id, Store.newDevice L address userAgent now draw)]) := by
    refine ⟨?_, ?_, ?_, ?_, ?_, ?_⟩
    · rw [List.map_append]
      exact List.Nodup.append sound.book.keys (List.nodup_singleton _) (by simpa using absent)
    · intro u member
      rcases List.mem_append.mp member with old | new
      · refine (sound.book.records u old).other ?_ nofun
        intro same
        exact absent (Option.some.inj same ▸ List.mem_map_of_mem (f := Prod.fst) old)
      · cases List.mem_singleton.mp new
        refine ⟨rfl, drawn, ⟨draw.secret, List.mem_cons_self⟩, fun _ => ⟨none, rfl, ?_⟩, nofun⟩
        exact ⟨draw.secret, List.mem_cons_self, draw.salt, encoded, salted, nonempty, rfl⟩
    · intro id secret issued
      obtain ⟨d, member, status⟩ := sound.book.present id secret issued
      exact ⟨d, List.mem_append_left _ member, status⟩
    · rw [pendings, List.length_append]
      exact room
    · intro a
      rw [pendings, List.filter_append, List.length_append]
      by_cases here : address = a
      · subst here
        have alone : ([Store.newDevice L address userAgent now draw].filter
            fun d => decide (d.address = address)).length = 1 := by simp [Store.newDevice]
        rw [alone]
        exact roomHere
      · have others := sound.book.address a
        have away : ([Store.newDevice L address userAgent now draw].filter fun d => decide (d.address = a)) = [] := by
          simp [Store.newDevice, here]
        rw [away]
        exact others
    · rw [codes]
      exact List.Nodup.append sound.book.codes (List.nodup_singleton _) (by simpa using unusedCode)
  refine ⟨items ▸ book, fun id => ?_, ?_⟩
  · have backed := sound.backed id
    show ((readBack t.file).lookup id).map _ =
      (((Dict.set t.devices draw.id (Store.newDevice L address userAgent now draw)).lookup id).filter _).map _
    rw [backed, Dict.lookup_set]
    by_cases same : id = draw.id
    · have gone : t.devices.lookup id = Option.none :=
        List.lookup_eq_none_of_forall fun u member here =>
          absent (same ▸ here ▸ List.mem_map_of_mem (f := Prod.fst) member)
      rw [if_pos same, gone]
      simp [Option.filter_some, Store.newDevice]
    · rw [if_neg same]
  · show (draw.secret :: secretsOf log).Nodup
    exact List.nodup_cons.mpr ⟨unusedSecret, sound.secrets⟩

theorem load_file (t : Store) : t.load.file = t.file := by
  unfold Store.load
  dsimp only
  split
  · rfl
  · rfl
  · split <;> rfl

/-- A process that starts again has the approved devices, and no handoff. -/
theorem Sound.restarted (sound : Sound L ⟨t, log⟩) : Sound L ⟨t.restart, .restarted :: log⟩ := by
  obtain ⟨keys, shapes⟩ := readBack_sound t.file
  have before : ∀ u ∈ readBack t.file, ∃ d, (u.1, d) ∈ t.devices ∧ d.status = .approved ∧ d.secretHash = u.2.secretHash := by
    intro u member
    have backed := sound.backed u.1
    rw [List.lookup_of_mem keys member, Option.map_some] at backed
    obtain ⟨d, found, hash⟩ := Option.map_eq_some_iff.mp backed.symm
    obtain ⟨there, status⟩ := Option.filter_eq_some_iff.mp found
    exact ⟨d, sound.book.lookup.mp there, of_decide_eq_true status, hash⟩
  have noneWait : ∀ u ∈ readBack t.file, u.2.status ≠ .pending ∧ u.2.live = false := by
    intro u member
    have status := (shapes u member).2.1
    refine ⟨by rw [status]; nofun, ?_⟩
    simp [PanelDevice.live, status]
  have pendings : pendingsOf (readBack t.file) = [] := by
    refine List.filter_eq_nil_iff.mpr fun d member => ?_
    obtain ⟨u, there, rfl⟩ := List.mem_map.mp member
    simpa using (noneWait u there).1
  have codes : liveCodesOf (readBack t.file) = [] := by
    unfold liveCodesOf
    rw [List.map_eq_nil_iff]
    refine List.filter_eq_nil_iff.mpr fun d member => ?_
    obtain ⟨u, there, rfl⟩ := List.mem_map.mp member
    simpa using (noneWait u there).2
  have book : Book L (.restarted :: log) (readBack t.file) := by
    refine ⟨keys, ?_, ?_, by rw [pendings]; exact Nat.zero_le _, fun a => by rw [pendings]; exact Nat.zero_le _,
      by rw [codes]; exact List.nodup_nil⟩
    · intro u member
      obtain ⟨named, status, empty⟩ := shapes u member
      obtain ⟨d, there, approved, hash⟩ := before u member
      have record := sound.book.records _ there
      obtain ⟨held, given⟩ := record.asked
      obtain ⟨secret, issued, hashes, _⟩ := record.admitted approved
      refine ⟨named, record.drawn, ⟨held, List.mem_cons_of_mem _ given⟩, fun waits => absurd status waits, fun _ => ?_⟩
      exact ⟨secret, issued, hash ▸ hashes, fun held => absurd empty held⟩
    · intro id secret issued
      obtain ⟨d, member, approved⟩ := sound.book.present id secret issued
      have backed := sound.backed id
      rw [show t.devices.lookup id = some d from sound.book.lookup.mpr member] at backed
      simp only [Option.filter_some, approved, decide_true, if_true, Option.map_some] at backed
      obtain ⟨d', there, _⟩ := Option.map_eq_some_iff.mp backed
      have member' := List.mem_of_lookup_eq_some there
      exact ⟨d', member', (shapes _ member').2.1⟩
  refine ⟨book, fun id => ?_, sound.secrets⟩
  show ((readBack t.restart.file).lookup id).map _ = (((readBack t.file).lookup id).filter _).map _
  rw [show t.restart.file = t.file from load_file _]
  cases here : (readBack t.file).lookup id with
  | none => rfl
  | some d =>
    have status : d.status = .approved := (shapes _ (List.mem_of_lookup_eq_some here)).2.1
    simp [Option.filter_some, status]

/-- Every call keeps the records, the file and the secrets in order. -/
theorem Sound.next (sound : Sound L s) {call : Call} {s' : State} (step : next L s call = some s') : Sound L s' := by
  obtain ⟨t, log⟩ := s
  cases call with
  | checkIn value address userAgent now draw =>
    unfold Panels.next at step
    dsimp only at step
    unfold Store.checkIn at step
    cases known : t.matchValue L value now.monotonic with
    | some found =>
      obtain ⟨device, how⟩ := found
      rw [known] at step
      have created : (t.checkInKnown L value now device how).1.created = false := by
        unfold Store.checkInKnown
        split
        · split
          · rfl
          · split <;> rfl
        · rfl
        · rfl
      dsimp only at step
      rw [created] at step
      cases step
      exact sound.checkInKnown value now device how
    | none =>
      rw [known] at step
      dsimp only at step
      split at step
      · cases step
        exact sound
      · rename_i room
        split at step
        · cases step
          exact sound
        · rename_i roomHere
          split at step
          · split at step
            · rename_i fresh
              cases step
              exact sound.created fresh (Nat.lt_of_not_le room) (Nat.lt_of_not_le roomHere) userAgent now
            · cases step
          · rename_i never
            exact absurd rfl never
  | approve id name approvedBy now secret salt =>
    unfold Panels.next at step
    dsimp only at step
    unfold Store.approve at step
    cases here : t.devices.lookup id with
    | none =>
      rw [here] at step
      cases step
      exact sound
    | some d =>
      rw [here] at step
      dsimp only at step
      by_cases approved : d.status = .approved
      · simp only [approved, Option.any_some, ne_eq, not_true, decide_false, Bool.false_eq_true, if_false, if_true] at step
        cases step
        split
        · exact (sound.update id (by intro d; rfl)).save
        · exact sound
      · simp only [approved, Option.any_some, ne_eq, not_false_eq_true, decide_true, if_true, if_false] at step
        split at step
        · rename_i fresh
          cases step
          exact sound.approved here approved fresh name approvedBy now
        · cases step
  | markDelivered id now =>
    cases step
    exact sound.markDelivered id now
  | deny id now =>
    cases step
    unfold Store.deny
    split
    · exact sound
    · rename_i d here
      split
      · exact sound
      · rename_i waits
        exact sound.denied here waits now
  | revoke id =>
    cases step
    cases here : t.devices.lookup id with
    | none =>
      have unchanged : (t.revoke id).2 = t := by
        unfold Store.revoke
        rw [here]
      simp only [Option.isSome_none, Bool.false_eq_true, if_false]
      rw [unchanged]
      exact sound
    | some d =>
      simp only [Option.isSome_some, if_true]
      exact sound.revoked here
  | rename id name =>
    cases step
    exact sound.rename id name
  | touch id now =>
    cases step
    exact sound.touch id now
  | expire now =>
    cases step
    exact sound.expired now
  | restart =>
    cases step
    exact sound.restarted

theorem Sound.start : Sound L {} where
  book := ⟨List.nodup_nil, fun _ h => absurd h List.not_mem_nil, nofun, Nat.zero_le _, fun _ => Nat.zero_le _,
    List.nodup_nil⟩
  backed := fun _ => rfl
  secrets := List.nodup_nil

theorem sound_of_reach (reach : Run.Reach (machine L) Run.always s) : Sound L s :=
  reach.invariant (fun _ start => start ▸ Sound.start) fun _ _ _ _ sound _ step => sound.next step

end OpenAvc.Panels
