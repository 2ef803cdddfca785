import OpenAvc.Data.Lookup
import OpenAvc.Device.Children

namespace OpenAvc.Device

open Driver

variable {info : DriverInfo} {d d' : Driver} {c : Child} {p q : Presence} {updates : Updates} {prop : String}
  {value : Value} {connected : Bool}

def presenceProps : List String := ["online", "offline_reason", "offline_detail"]

/-- What the three keys of a child hold. -/
def Driver.reads (d : Driver) (c : Child) (prop : String) : Option Value := d.store (.child c.1 c.2 prop)

def Carries (d : Driver) (c : Child) (p : Presence) : Prop :=
  ∀ prop ∈ presenceProps, d.reads c prop = p.items.lookup prop

theorem lookup_childItems (c : Child) (prop : String) :
    (childItems c updates).lookup (.child c.1 c.2 prop) = updates.lookup prop := by
  have inj : Function.Injective (Key.child c.1 c.2) := fun p q same => by cases same; rfl
  rw [childItems, List.lookup_map_items inj (fun _ v => v) prop updates, Option.map_id']

theorem lookup_childItems_of_ne {e : Child} (apart : e ≠ c) (prop : String) :
    (childItems e updates).lookup (.child c.1 c.2 prop) = none := by
  refine List.lookup_eq_none_of_forall fun u member => ?_
  obtain ⟨v, _, rfl⟩ := List.mem_map.mp member
  intro same
  injection same with type id
  exact apart (Prod.ext type id)

theorem lookup_childItems_device (e : Child) (prop : String) :
    (childItems e updates).lookup (.device prop) = none := by
  refine List.lookup_eq_none_of_forall fun u member => ?_
  obtain ⟨v, _, rfl⟩ := List.mem_map.mp member
  exact nofun

theorem lookup_normalized :
    (normalized updates).lookup prop = (updates.lookup prop).map (normalizeChildFaultClaim prop) :=
  List.lookup_map_items Function.injective_id normalizeChildFaultClaim prop updates

theorem reads_setBatch {items : List (Key × Value)} :
    (d.setBatch items).reads c prop = (items.lookup (.child c.1 c.2 prop)).or (d.reads c prop) := rfl

theorem store_device_setBatch {items : List (Key × Value)} (foreign : items.lookup (.device prop) = none) :
    (d.setBatch items).store (.device prop) = d.store (.device prop) := by
  simp only [setBatch, foreign, Option.none_or]

/-- Items that hold the whole of `p` under the keys of `c`. -/
theorem Carries.setBatch {items : List (Key × Value)}
    (whole : ∀ prop ∈ presenceProps, items.lookup (.child c.1 c.2 prop) = p.items.lookup prop) :
    Carries (d.setBatch items) c p := by
  intro prop member
  rw [reads_setBatch, whole prop member]
  simp only [presenceProps, List.mem_cons, List.not_mem_nil, or_false] at member
  rcases member with rfl | rfl | rfl <;> rfl

theorem Carries.setBatch_of_foreign {items : List (Key × Value)} (carries : Carries d c p)
    (foreign : ∀ prop ∈ presenceProps, items.lookup (.child c.1 c.2 prop) = none) :
    Carries (d.setBatch items) c p := by
  intro prop member
  rw [reads_setBatch, foreign prop member]
  exact carries prop member

/-- What a presence becomes when its parent's `connected` is written. -/
def followed (info : DriverInfo) (type : String) (connected : Bool) (p : Presence) : Presence :=
  if connected then if p.offlineReason ≠ .str parentOffline then p else info.childUnknownPresence type
  else if p.offlineReason.truthy || p.online = false then p
  else childParentOfflinePresence

theorem Carries.get_reason (carries : Carries d c p) :
    d.get (.child c.1 c.2 "offline_reason") = p.offlineReason := by
  have read := carries "offline_reason" (by simp [presenceProps])
  simp only [reads] at read
  rw [Driver.get, read]
  rfl

theorem Carries.get_online (carries : Carries d c p) :
    d.get (.child c.1 c.2 "online") = .bool p.online := by
  have read := carries "online" (by simp [presenceProps])
  simp only [reads] at read
  rw [Driver.get, read]
  rfl

theorem lookup_followItems_of_ne {e : Child} (apart : e ≠ c) :
    (d.followItems info connected e).lookup (.child c.1 c.2 prop) = none := by
  unfold followItems
  cases connected <;> simp only [Bool.false_eq_true, if_false, if_true] <;> split <;>
    first | rfl | exact lookup_childItems_of_ne apart prop

/-- Each child is carried by what it carries itself. -/
theorem Carries.follow (carries : Carries d c p) (registered : c ∈ d.children) :
    Carries (d.childrenFollowParent info connected) c (followed info c.1 connected p) := by
  have items (prop : String) : (d.children.flatMap (d.followItems info connected)).lookup (.child c.1 c.2 prop) =
      (d.followItems info connected c).lookup (.child c.1 c.2 prop) := by
    rw [List.lookup_flatMap_of_owner (fun e apart => lookup_followItems_of_ne apart), if_pos registered]
  have stays (none : d.followItems info connected c = []) :
      Carries (d.childrenFollowParent info connected) c p :=
    carries.setBatch_of_foreign fun prop _ => by rw [items, none]; rfl
  have written {q : Presence} (own : d.followItems info connected c = childItems c q.items) :
      Carries (d.childrenFollowParent info connected) c q :=
    .setBatch fun prop _ => by rw [items, own, lookup_childItems]
  cases connected with
  | true =>
    simp only [followed, if_true]
    split
    · rename_i other
      exact stays (by simp [followItems, carries.get_reason, other])
    · rename_i mark
      exact written (by simp [followItems, carries.get_reason, not_not.mp mark])
  | false =>
    simp only [followed, Bool.false_eq_true, if_false]
    split
    · rename_i kept
      refine stays ?_
      simp only [followItems, Bool.false_eq_true, if_false, carries.get_reason, carries.get_online,
        Value.bool.injEq]
      exact if_pos kept
    · rename_i free
      refine written ?_
      simp only [followItems, Bool.false_eq_true, if_false, carries.get_reason, carries.get_online,
        Value.bool.injEq]
      exact if_neg free

/-- The presences that the platform and `child_fault` write. -/
inductive Spoken : Presence → Prop
  | inService : Spoken .inService
  | parentOffline : Spoken childParentOfflinePresence
  | fault (code message : String) : code ∈ driverFaultCodes → message ≠ "" → Spoken (.fault code message)

theorem Spoken.unknown (info : DriverInfo) (type : String) : Spoken (info.childUnknownPresence type) := by
  unfold DriverInfo.childUnknownPresence
  split
  · exact .fault notFitted _ (by simp [driverFaultCodes]) (by decide)
  · exact .inService

theorem Spoken.childFault {code message : String} (made : childFault code message = .ok p) : Spoken p := by
  unfold OpenAvc.Device.childFault at made
  split at made
  · cases made; exact .inService
  · split at made
    · cases made
    · rename_i known
      cases made
      refine .fault code _ (not_not.mp known) ?_
      split
      · have fixed : ∀ code ∈ driverFaultCodes, defaultChildFaultMessage code ≠ "" := by decide
        exact fixed code (not_not.mp known)
      · assumption

/-- A presence that fits the parent's `connected`: out of service while it is
false, and free of the platform's mark while it is true. -/
structure Fits (connected : Bool) (p : Presence) : Prop where
  spoken : Spoken p
  offline : connected = false → p.online = false
  unmarked : connected = true → p.offlineReason ≠ .str parentOffline

theorem Fits.unknown : Fits true (info.childUnknownPresence type) where
  spoken := .unknown info type
  offline := nofun
  unmarked _ := by
    unfold DriverInfo.childUnknownPresence
    split <;> decide

/-- Whatever fitted before fits what `connected` has become. -/
theorem Fits.followed (spoken : Spoken p) : Fits connected (followed info type connected p) := by
  cases connected with
  | true =>
    simp only [Device.followed, if_true]
    split
    · rename_i other
      exact ⟨spoken, nofun, fun _ => other⟩
    · exact .unknown
  | false =>
    simp only [Device.followed, Bool.false_eq_true, if_false]
    split
    · rename_i kept
      refine ⟨spoken, fun _ => ?_, nofun⟩
      cases spoken with
      | inService => simp [Presence.inService, Value.truthy] at kept
      | parentOffline => rfl
      | fault => rfl
    · exact ⟨.parentOffline, fun _ => rfl, nofun⟩

/-- `connected`, as the code reads a value for truth. -/
def Driver.isConnected (d : Driver) : Bool := (d.get (.device "connected")).truthy

/-- Every registered child has a presence that fits `connected`. -/
def Standing (d : Driver) : Prop := ∀ c ∈ d.children, ∃ p, Carries d c p ∧ Fits d.isConnected p

/-- The updates say nothing of presence, or all that one `child_fault` says. -/
def Fragment (updates : Updates) : Prop :=
  (∀ prop ∈ presenceProps, updates.lookup prop = none) ∨
  ∃ code message p, childFault code message = .ok p ∧
    ∀ prop ∈ presenceProps, updates.lookup prop = p.items.lookup prop

/-- The mark a declared roster puts on the children it registers offline. -/
def Marked (updates : Updates) : Prop :=
  ∀ prop ∈ presenceProps, updates.lookup prop = childParentOfflinePresence.items.lookup prop

/-- A driver's writes of the presence keys are `child_fault` fragments. -/
def Disciplined (d : Driver) : Driver.Call → Prop
  | .registerChild _ initialState _ => Fragment initialState ∨ (d.isConnected = false ∧ Marked initialState)
  | .setChildState _ prop _ => prop ∉ presenceProps
  | .setChildStateBatch _ updates => Fragment updates
  | .setChildrenStateBatch entries => ∀ entry ∈ entries, Fragment entry.2
  | .deregisterChild _ | .setState _ _ | .setStates _ => True

/-- The call puts a child in service: a new one that starts there, or one whose
fragment says so. -/
def ClaimsService (info : DriverInfo) (d : Driver) : Driver.Call → Prop
  | .registerChild c initialState _ => c ∉ d.children ∧
      (initialState.lookup "online").getD (.bool (info.childUnknownPresence c.1).online) = .bool true
  | .setChildStateBatch c updates => c ∈ d.children ∧ updates.lookup "online" = some (.bool true)
  | .setChildrenStateBatch entries =>
      ∃ entry ∈ entries, entry.1 ∈ d.children ∧ entry.2.lookup "online" = some (.bool true)
  | _ => False

theorem Spoken.normalized (spoken : Spoken p) (member : prop ∈ presenceProps) :
    (p.items.lookup prop).map (normalizeChildFaultClaim prop) = p.items.lookup prop := by
  simp only [presenceProps, List.mem_cons, List.not_mem_nil, or_false] at member
  cases spoken with
  | inService => rcases member with rfl | rfl | rfl <;> rfl
  | parentOffline => rcases member with rfl | rfl | rfl <;> decide
  | fault code message known worded =>
    have coded : ∀ code ∈ driverFaultCodes, code ≠ "" := by decide
    have named := coded code known
    rcases member with rfl | rfl | rfl <;>
      simp [Presence.fault, Presence.items, normalizeChildFaultClaim, List.lookup_cons, named, worded]

theorem childFault_unmarked {code message : String} (made : childFault code message = .ok p) :
    p.offlineReason ≠ .str parentOffline := by
  unfold childFault at made
  split at made
  · cases made; decide
  · split at made
    · cases made
    · rename_i known
      cases made
      have others : ∀ code ∈ driverFaultCodes, Value.str code ≠ .str parentOffline := by decide
      exact others code (not_not.mp known)

theorem items_online : p.items.lookup "online" = some (.bool p.online) := rfl

theorem isConnected_setBatch {items : List (Key × Value)} (foreign : items.lookup (.device "connected") = none) :
    (d.setBatch items).isConnected = d.isConnected := by
  simp only [Driver.isConnected, Driver.get, store_device_setBatch foreign]

/-- A fragment written for one child leaves every child standing, unless it
claims service under an offline parent. -/
theorem Standing.setBatch (standing : Standing d) (fragment : Fragment updates)
    (lawful : d.isConnected = false → updates.lookup "online" ≠ some (.bool true)) :
    Standing (d.setBatch (childItems c (normalized updates))) := by
  intro e registered
  obtain ⟨p, carries, fits⟩ := standing e registered
  rw [isConnected_setBatch (lookup_childItems_device c "connected")]
  by_cases same : c = e
  · subst same
    rcases fragment with silent | ⟨code, message, q, made, whole⟩
    · refine ⟨p, carries.setBatch_of_foreign fun prop member => ?_, fits⟩
      rw [lookup_childItems, lookup_normalized, silent prop member]
      rfl
    · have spoken := Spoken.childFault made
      refine ⟨q, .setBatch fun prop member => ?_, spoken, fun offline => ?_, fun _ => childFault_unmarked made⟩
      · rw [lookup_childItems, lookup_normalized, whole prop member, spoken.normalized member]
      · have quiet := lawful offline
        rw [whole "online" (by simp [presenceProps]), items_online] at quiet
        simpa using quiet
  · exact ⟨p, carries.setBatch_of_foreign fun prop _ => lookup_childItems_of_ne same prop, fits⟩

theorem setBatch_append {early late : List (Key × Value)} :
    d.setBatch (late ++ early) = (d.setBatch early).setBatch late := by
  simp only [Driver.setBatch, List.lookup_append, Option.or_assoc]

theorem Standing.gathered {entries : List (Child × Updates)} (standing : Standing d)
    (fragments : ∀ entry ∈ entries, Fragment entry.2)
    (lawful : d.isConnected = false → ∀ entry ∈ entries, entry.2.lookup "online" ≠ some (.bool true)) :
    Standing (d.setBatch (gathered entries)) := by
  induction entries generalizing d with
  | nil => exact standing
  | cons entry entries ih =>
    obtain ⟨c, updates⟩ := entry
    have first := standing.setBatch (c := c) (fragments _ List.mem_cons_self) fun offline =>
      lawful offline _ List.mem_cons_self
    rw [Driver.gathered, setBatch_append]
    refine ih first (fun entry member => fragments entry (List.mem_cons_of_mem _ member)) ?_
    rw [isConnected_setBatch (lookup_childItems_device c "connected")]
    exact fun offline entry member => lawful offline entry (List.mem_cons_of_mem _ member)

theorem lookup_followed_device :
    (d.children.flatMap (d.followItems info connected)).lookup (.device prop) = none := by
  refine List.lookup_eq_none_of_forall fun u member => ?_
  obtain ⟨e, _, own⟩ := List.mem_flatMap.mp member
  have child (updates : Updates) (written : u ∈ childItems e updates) : u.1 ≠ .device prop := by
    obtain ⟨v, _, rfl⟩ := List.mem_map.mp written
    exact nofun
  unfold followItems at own
  cases connected <;> simp only [Bool.false_eq_true, if_false, if_true] at own <;> split at own <;>
    first | exact absurd own List.not_mem_nil | exact child _ own

/-- Writing `connected` leaves every child standing under its new value. -/
theorem Standing.follow (spoken : ∀ c ∈ d.children, ∃ p, Carries d c p ∧ Spoken p)
    (written : d.isConnected = connected) : Standing (d.childrenFollowParent info connected) := by
  intro c registered
  obtain ⟨p, carries, said⟩ := spoken c registered
  refine ⟨_, carries.follow registered, ?_⟩
  have still : (d.childrenFollowParent info connected).isConnected = connected := by
    rw [childrenFollowParent, isConnected_setBatch lookup_followed_device, written]
  rw [still]
  exact .followed said

theorem lookup_map_self {value : String → Value} {props : List String} (member : prop ∈ props) :
    (props.map fun prop => (prop, value prop)).lookup prop = some (value prop) := by
  induction props with
  | nil => exact absurd member List.not_mem_nil
  | cons first props ih =>
    rw [List.map_cons, List.lookup_cons]
    by_cases here : prop = first
    · subst here; simp
    · rw [beq_eq_false_iff_ne.mpr here]
      exact ih ((List.mem_cons.mp member).resolve_left here)

theorem presenceProps_subset_effective {definition : ChildType} {schema : Option (List String)}
    (member : prop ∈ presenceProps) : prop ∈ effectiveChildSchema definition schema := by
  have reserved : prop ∈ reservedProps := by
    simp only [presenceProps, List.mem_cons, List.not_mem_nil, or_false] at member
    rcases member with rfl | rfl | rfl <;> decide
  simp only [effectiveChildSchema, List.mem_append, List.mem_filter, decide_eq_true_eq]
  exact (Classical.em _).imp_right fun undeclared => ⟨reserved, undeclared⟩

theorem items_lookup_isSome (p : Presence) (member : prop ∈ presenceProps) : ∃ v, p.items.lookup prop = some v := by
  simp only [presenceProps, List.mem_cons, List.not_mem_nil, or_false] at member
  rcases member with rfl | rfl | rfl <;> exact ⟨_, rfl⟩

/-- All that a call of `registerChild` can do. -/
theorem registerChild_cases {initialState : Updates} {schema : Option (List String)}
    (run : d.registerChild info c initialState schema = .ok d') :
    d' = d ∨ (c ∉ d.children ∧
      ∃ (label : String) (effective : List String) (schemas : List (Child × List String)),
      (∀ prop ∈ presenceProps, prop ∈ effective) ∧
      d' = { d with children := d.children ++ [c], childSchemas := schemas }.setBatch
        (childItems c (normalized (effective.map fun prop =>
          (prop, registeredValue initialState (registeredPresence info c.1 initialState) label prop))))) := by
  unfold registerChild at run
  cases format : info.formatChildId c.1 c.2 with
  | error _ => simp [format, bind, Except.bind] at run
  | ok padded =>
    cases definition : info.childTypeDef c.1 with
    | error _ => simp [format, definition, bind, Except.bind] at run
    | ok type =>
      simp only [format, definition, bind, Except.bind] at run
      split at run
      · cases run
      · split at run
        · cases run; exact Or.inl rfl
        · rename_i fresh
          split at run
          · cases run
          · cases run
            refine Or.inr ⟨by simpa [isChildRegistered] using fresh, _, _, _, fun prop member => ?_, rfl⟩
            exact presenceProps_subset_effective member

/-- What a child is registered with: what its `initial_state` says of presence,
or what is said of a child of its roster that nothing is known of. -/
theorem registered_presence {initialState : Updates} {offline : Prop}
    (said : Fragment initialState ∨ (offline ∧ Marked initialState)) : ∃ q, Spoken q ∧
      (∀ label, ∀ prop ∈ presenceProps,
        some (registeredValue initialState (registeredPresence info c.1 initialState) label prop) =
          q.items.lookup prop) ∧
      (initialState.lookup "online").getD (.bool (info.childUnknownPresence c.1).online) = .bool q.online ∧
      (q.offlineReason = .str parentOffline → offline) := by
  have told {q : Presence} (whole : ∀ prop ∈ presenceProps, initialState.lookup prop = q.items.lookup prop)
      (label : String) : ∀ prop ∈ presenceProps,
      some (registeredValue initialState (registeredPresence info c.1 initialState) label prop) =
        q.items.lookup prop := by
    intro prop member
    obtain ⟨v, found⟩ := items_lookup_isSome q member
    have own := whole prop member
    rw [found] at own ⊢
    simp only [registeredValue, own]
  rcases said with (silent | ⟨code, message, q, made, whole⟩) | ⟨away, marked⟩
  · have online := silent "online" (by simp [presenceProps])
    have start : registeredPresence info c.1 initialState = info.childUnknownPresence c.1 := by
      simp [registeredPresence, online]
    refine ⟨info.childUnknownPresence c.1, .unknown info c.1, fun label prop member => ?_, by rw [online]; rfl,
      fun mark => absurd mark (Fits.unknown.unmarked rfl)⟩
    obtain ⟨v, found⟩ := items_lookup_isSome (info.childUnknownPresence c.1) member
    simp only [registeredValue, silent prop member, start, found]
  · refine ⟨q, .childFault made, told whole, ?_, fun mark => absurd mark (childFault_unmarked made)⟩
    rw [whole "online" (by simp [presenceProps]), items_online]
    rfl
  · refine ⟨childParentOfflinePresence, .parentOffline, told marked, ?_, fun _ => away⟩
    rw [marked "online" (by simp [presenceProps]), items_online]
    rfl

theorem Standing.register {initialState : Updates} {schema : Option (List String)} (standing : Standing d)
    (disciplined : Disciplined d (.registerChild c initialState schema))
    (lawful : d.isConnected = false → ¬ ClaimsService info d (.registerChild c initialState schema))
    (run : d.registerChild info c initialState schema = .ok d') : Standing d' := by
  rcases registerChild_cases run with rfl | ⟨fresh, label, effective, schemas, whole, rfl⟩
  · exact standing
  have still : ({ d with children := d.children ++ [c], childSchemas := schemas }.setBatch
      (childItems c (normalized (effective.map fun prop =>
        (prop, registeredValue initialState (registeredPresence info c.1 initialState) label prop))))).isConnected =
      d.isConnected := isConnected_setBatch (lookup_childItems_device c "connected")
  intro e registered
  rw [still]
  rcases List.mem_append.mp registered with before | new
  · obtain ⟨p, carries, fits⟩ := standing e before
    have apart : c ≠ e := fun same => fresh (same ▸ before)
    have moved : Carries { d with children := d.children ++ [c], childSchemas := schemas } e p := carries
    exact ⟨p, moved.setBatch_of_foreign fun prop _ => lookup_childItems_of_ne apart prop, fits⟩
  · cases List.mem_singleton.mp new
    obtain ⟨q, spoken, values, online, mark⟩ := registered_presence (c := c) disciplined
    refine ⟨q, .setBatch fun prop member => ?_, spoken, fun offline => ?_, fun reached marked => ?_⟩
    · rw [lookup_childItems, lookup_normalized, lookup_map_self (whole prop member), values label prop member,
        spoken.normalized member]
    · have quiet := lawful offline
      simp only [ClaimsService, fresh, not_false_eq_true, true_and, online, Value.bool.injEq,
        Bool.not_eq_true] at quiet
      exact quiet
    · rw [mark marked] at reached
      cases reached

theorem Standing.deregister (standing : Standing d) : Standing (d.deregisterChild c) := by
  unfold deregisterChild
  split
  · exact standing
  · intro e registered
    obtain ⟨before, apart⟩ := List.mem_filter.mp registered
    obtain ⟨p, carries, fits⟩ := standing e before
    refine ⟨p, fun prop member => ?_, fits⟩
    have other : ¬ e = c := by simpa using apart
    simp only [Driver.reads, if_neg other]
    exact carries prop member

theorem Standing.spoken (standing : Standing d) {items : List (Key × Value)}
    (foreign : ∀ (c : Child) prop, items.lookup (.child c.1 c.2 prop) = none) :
    ∀ c ∈ (d.setBatch items).children, ∃ p, Carries (d.setBatch items) c p ∧ Spoken p := by
  intro c registered
  obtain ⟨p, carries, fits⟩ := standing c registered
  exact ⟨p, carries.setBatch_of_foreign fun prop _ => foreign c prop, fits.spoken⟩

theorem Standing.setDevice (standing : Standing d) {items : List (Key × Value)}
    (foreign : ∀ (c : Child) prop, items.lookup (.child c.1 c.2 prop) = none)
    (kept : items.lookup (.device "connected") = none) : Standing (d.setBatch items) := by
  intro c registered
  obtain ⟨p, carries, fits⟩ := standing c registered
  rw [isConnected_setBatch kept]
  exact ⟨p, carries.setBatch_of_foreign fun prop _ => foreign c prop, fits⟩

theorem lookup_deviceItems_child (c : Child) (prop : String) :
    (updates.map fun u => (Key.device u.1, u.2)).lookup (.child c.1 c.2 prop) = none := by
  refine List.lookup_eq_none_of_forall fun u member => ?_
  obtain ⟨v, _, rfl⟩ := List.mem_map.mp member
  exact nofun

theorem lookup_deviceItems (prop : String) :
    (updates.map fun u => (Key.device u.1, u.2)).lookup (.device prop) = updates.lookup prop := by
  have inj : Function.Injective Key.device := fun p q same => by cases same; rfl
  rw [List.lookup_map_items inj (fun _ v => v) prop updates, Option.map_id']

/-- Device keys written at once, the children carried along with `connected`. -/
theorem Standing.setStates (info : DriverInfo) (updates : Updates) (standing : Standing d) : Standing (match updates.lookup "connected" with
    | some value => (d.setBatch (updates.map fun u => (.device u.1, u.2))).childrenFollowParent info value.truthy
    | none => d.setBatch (updates.map fun u => (.device u.1, u.2))) := by
  split
  · rename_i value written
    refine .follow (standing.spoken lookup_deviceItems_child) ?_
    simp only [Driver.isConnected, Driver.get, Driver.setBatch, lookup_deviceItems, written, Option.some_or,
      Option.getD_some]
  · rename_i silent
    exact standing.setDevice lookup_deviceItems_child (by rw [lookup_deviceItems, silent])

theorem Standing.next {call : Driver.Call} (standing : Standing d) (disciplined : Disciplined d call)
    (lawful : d.isConnected = false → ¬ ClaimsService info d call) : Standing (d.next info call) := by
  unfold Driver.next
  split
  · rename_i d' run
    cases call with
    | registerChild c initialState schema => exact standing.register disciplined lawful run
    | deregisterChild c => cases run; exact standing.deregister
    | setChildState c prop value =>
      simp only [Driver.call, Driver.setChildState, bind, Except.bind] at run
      split at run
      · cases run; exact standing
      · split at run <;> cases run
        have elsewhere (other : String) (member : other ∈ presenceProps) :
            [(prop, value)].lookup other = none := by
          refine List.lookup_eq_none_of_forall fun u only => ?_
          cases List.mem_singleton.mp only
          intro same
          exact disciplined (by rwa [← show prop = other from same] at member)
        refine standing.setBatch (Or.inl elsewhere) fun _ => ?_
        rw [elsewhere "online" (by simp [presenceProps])]
        exact nofun
    | setChildStateBatch c updates =>
      simp only [Driver.call, Driver.setChildStateBatch, bind, Except.bind] at run
      split at run
      · cases run; exact standing
      · rename_i registered
        split at run <;> cases run
        refine standing.setBatch disciplined fun offline claimed => lawful offline ⟨?_, claimed⟩
        simpa [isChildRegistered] using registered
    | setChildrenStateBatch entries =>
      simp only [Driver.call, Driver.setChildrenStateBatch, bind, Except.bind] at run
      split at run <;> cases run
      refine standing.gathered (fun entry live => disciplined entry (List.mem_filter.mp live).1) ?_
      intro offline entry live claimed
      obtain ⟨member, registered⟩ := List.mem_filter.mp live
      exact lawful offline ⟨entry, member, by simpa [isChildRegistered] using registered, claimed⟩
    | setState prop value =>
      simp only [Driver.call, Driver.setState] at run
      split at run <;> cases run
      have whole := standing.setStates info [(prop, value)]
      by_cases same : prop = "connected"
      · subst same
        simpa using whole
      · have other : ("connected" == prop) = false := beq_eq_false_iff_ne.mpr (Ne.symm same)
        simp only [List.lookup_cons, other, List.lookup_nil] at whole
        simpa [same] using whole
    | setStates updates =>
      simp only [Driver.call, Driver.setStates] at run
      split at run <;> cases run
      exact standing.setStates info updates
  · exact standing

/-- The call writes `connected` and nothing else. -/
def WritesConnected (connected : Bool) (call : Driver.Call) : Prop :=
  call = .setState "connected" (.bool connected) ∨ call = .setStates [("connected", .bool connected)]

theorem Carries.writesConnected (info : DriverInfo) {call : Driver.Call} (writes : WritesConnected connected call)
    (carries : Carries d c p) (registered : c ∈ d.children) :
    Carries (d.next info call) c (followed info c.1 connected p) ∧ (d.next info call).children = d.children := by
  have free : ∀ d : Driver, d.refusesUndeclared info "connected" = false := fun d => by
    simp [refusesUndeclared]
  have effect : d.next info call =
      (d.setBatch [(.device "connected", .bool connected)]).childrenFollowParent info connected := by
    rcases writes with rfl | rfl <;>
      simp [Driver.next, Driver.call, Driver.setState, Driver.setStates, free, Value.truthy]
  have kept : Carries (d.setBatch [(.device "connected", .bool connected)]) c p :=
    carries.setBatch_of_foreign fun prop _ => rfl
  rw [effect]
  exact ⟨kept.follow registered, rfl⟩

/-- No registered child is in service under an offline parent; and `connected`
written False and then True puts back the presence of every child of an assumed
roster and of every child with a fault, those aside that were waiting for
`connected` already. -/
structure ChildrenFollow (info : DriverInfo) (d : Driver) : Prop where
  offline : d.isConnected = false → ∀ c ∈ d.children, d.reads c "online" ≠ some (.bool true)
  restored : ∀ c ∈ d.children,
    (d.isConnected = true ∨ d.reads c "offline_reason" ≠ some (.str parentOffline)) →
    (info.reported c.1 = false ∨ (d.get (.child c.1 c.2 "offline_reason")).truthy = true) →
    ∀ off on, WritesConnected false off → WritesConnected true on →
      ∀ prop ∈ presenceProps, ((d.next info off).next info on).reads c prop = d.reads c prop

theorem followed_twice (spoken : Spoken p) (unmarked : p.offlineReason ≠ .str parentOffline)
    (mine : info.reported type = false ∨ p.offlineReason.truthy = true) :
    followed info type true (followed info type false p) = p := by
  cases spoken with
  | inService =>
    have assumed : info.reported type = false := mine.resolve_right (by decide)
    simp only [followed, Presence.inService, Value.truthy, Bool.false_eq_true, if_false, Bool.true_eq_false,
      decide_false, Bool.or_self, if_true, childParentOfflinePresence, Presence.fault, ne_eq, not_true_eq_false,
      DriverInfo.childUnknownPresence, assumed]
  | parentOffline => exact absurd rfl unmarked
  | fault code message known worded =>
    have kept : followed info type false (.fault code message) = .fault code message := by
      simp [followed, Presence.fault]
    rw [kept]
    simp only [followed, if_true, if_pos unmarked]

/-- With presence written in `child_fault` fragments, and no child put in
service while `connected` is false, the children follow their parent. -/
theorem children_follow_parent (info : DriverInfo)
    (reach : Run.Reach (driverMachine info)
      (fun d call => Disciplined d call ∧ ¬ (d.isConnected = false ∧ ClaimsService info d call)) d) :
    ChildrenFollow info d := by
  have standing : Standing d := by
    refine reach.invariant (fun d start c registered => ?_) fun d call d' _ standing lawful run => ?_
    · rw [start.1] at registered
      exact absurd registered List.not_mem_nil
    · cases run
      exact standing.next lawful.1 fun offline claims => lawful.2 ⟨offline, claims⟩
  refine ⟨fun offline c registered => ?_, fun c registered fresh mine off on writesOff writesOn prop member => ?_⟩
  · obtain ⟨p, carries, fits⟩ := standing c registered
    rw [carries "online" (by simp [presenceProps]), items_online, fits.offline offline]
    decide
  · obtain ⟨p, carries, fits⟩ := standing c registered
    have unmarked : p.offlineReason ≠ .str parentOffline := by
      rcases fresh with reached | other
      · exact fits.unmarked reached
      · rw [carries "offline_reason" (by simp [presenceProps])] at other
        exact fun same => other (congrArg some same)
    obtain ⟨down, same⟩ := carries.writesConnected info writesOff registered
    obtain ⟨up, _⟩ := down.writesConnected info writesOn (same ▸ registered)
    rw [carries.get_reason] at mine
    rw [followed_twice fits.spoken unmarked mine] at up
    rw [up prop member, carries prop member]

/-- A mixer with an assumed roster of inputs. -/
def mixer : DriverInfo := { childEntityTypes := [("input", {})] }

def built : Driver := { store := fun key => if key = .device "connected" then some (.bool false) else none }

theorem reach_next {ok : Driver → Driver.Call → Prop} (call : Driver.Call)
    (reach : Run.Reach (driverMachine info) ok d) (meets : ok d call) :
    Run.Reach (driverMachine info) ok (d.next info call) := .step reach meets rfl

/-- A child registered on a connected mixer that is then unplugged. -/
theorem children_follow_parent_of_unplugged :
    ∃ d, d.children = [("input", .int 1)] ∧ d.isConnected = false ∧ ChildrenFollow mixer d := by
  have start : Run.Reach (driverMachine mixer)
      (fun d call => Disciplined d call ∧ ¬ (d.isConnected = false ∧ ClaimsService mixer d call)) built :=
    .init ⟨rfl, rfl⟩
  have up := reach_next (.setState "connected" (.bool true)) start ⟨trivial, fun claims => claims.2⟩
  have registered := reach_next (.registerChild ("input", .int 1) [] none) up
    ⟨Or.inl (Or.inl fun _ _ => rfl), fun claims => absurd claims.1 (by decide)⟩
  have down := reach_next (.setState "connected" (.bool false)) registered ⟨trivial, fun claims => claims.2⟩
  exact ⟨_, by decide, by decide, children_follow_parent mixer down⟩

/-- Registered on a mixer that is not connected, a child starts in service. -/
theorem children_do_not_follow_parent :
    ¬ ∀ (info : DriverInfo) (d : Driver), Run.Reach (driverMachine info) Disciplined d → ChildrenFollow info d := by
  intro follow
  have start : Run.Reach (driverMachine mixer) Disciplined built := .init ⟨rfl, rfl⟩
  have registered := reach_next (.registerChild ("input", .int 1) [] none) start (Or.inl (Or.inl fun _ _ => rfl))
  exact (follow mixer _ registered).offline (by decide) ("input", .int 1) (by decide) (by decide)

end OpenAvc.Device
