import Galvanize.MembersIndex

/-! The reconciliation of the members with what foca reports: `diff_member_states`
(`corro-agent/src/broadcast/mod.rs`) compares the two and `handle_notifications`
(`corro-agent/src/agent/handlers.rs`) acts on each difference. -/
namespace Galvanize
open List Std.ExtTreeMap Option Function

/-- `foca::State`. -/
inductive FocaState where
  | alive
  | suspect
  | down
deriving DecidableEq

/-- `foca_state_is_active`. -/
def FocaState.isActive : FocaState → Bool
  | alive => true
  | suspect => true
  | down => false

/-- `foca::Member`. -/
structure FocaMember where
  id : Actor
  incarnation : Nat
  state : FocaState

/-- `foca::OwnedNotification`. -/
inductive OwnedNotification where
  | memberUp (actor : Actor)
  | memberDown (actor : Actor)
  | rename (before after : Actor)
  | active
  | idle
  | defunct
  | rejoin (actor : Actor)
deriving DecidableEq

variable (clock : Timestamp → Nat) (states : Map ActorId FocaMember)

/-- Equality of actors, where timestamps of the same duration are equal. -/
def Actor.Same (left right : Actor) : Prop :=
  left.id = right.id ∧ left.addr = right.addr ∧ clock left.ts = clock right.ts ∧ left.clusterId = right.clusterId ∧
    left.memberId = right.memberId

instance (left right : Actor) : Decidable (left.Same clock right) :=
  inferInstanceAs (Decidable (_ ∧ _ ∧ _ ∧ _ ∧ _))

/-- Equality of members. -/
def FocaMember.Same (left right : FocaMember) : Prop :=
  left.id.Same clock right.id ∧ left.incarnation = right.incarnation ∧ left.state = right.state

instance (left right : FocaMember) : Decidable (left.Same clock right) :=
  inferInstanceAs (Decidable (_ ∧ _ ∧ _))

/-! ### `diff_member_states` -/

/-- The latest identity that is reported of an actor. -/
def noteFocaMember (member : FocaMember) : Map ActorId FocaMember :=
  match states[member.id.id]? with
  | some prev => if prev.id.ts < member.id.ts then states.insert member.id.id member else states
  | none => states.insert member.id.id member

def focaStates (listed : List FocaMember) : Map ActorId FocaMember := listed.foldl noteFocaMember ∅

/-- What is written to `__corro_members`, with the states it was compared with. -/
structure MemberDiff where
  lastStates : Map ActorId (FocaMember × Option Nat)
  toUpdate : List (FocaMember × Option Nat)
  toDelete : List ActorId
  notifications : List OwnedNotification

/-- The new state of a member, if it is not the last one. -/
def updateOf (memberId : Option MemberId) (members : Members)
    (last : Map ActorId (FocaMember × Option Nat)) (entry : ActorId × FocaMember) : Option (FocaMember × Option Nat) :=
  if entry.2.id.memberId ≠ memberId then none
  else
    let rtt := members.rtts[entry.2.id.addr]?.bind Rtt.maxMs
    match last[entry.1]? with
    | some (prev, prevRtt) => if ¬prev.Same clock entry.2 ∨ prevRtt ≠ rtt then some (entry.2, rtt) else none
    | none => some (entry.2, rtt)

/-- An actor that is active and not a member yet. -/
def upNotification (members : Members) (entry : ActorId × FocaMember) : Option OwnedNotification :=
  if entry.2.state.isActive ∧ (members.get entry.1).isNone then some (.memberUp entry.2.id) else none

/-- A member that is not active or not known to foca. -/
def downNotification (entry : ActorId × MemberState) : Option OwnedNotification :=
  match states[entry.1]? with
  | some member => if member.state.isActive then none else some (.memberDown member.id)
  | none => some (.memberDown (entry.2.toActor entry.1))

/-- What foca knows against the rows and the members. -/
def diffMemberStates (memberId : Option MemberId) (members : Members) (listed : List FocaMember)
    (last : Map ActorId (FocaMember × Option Nat)) : MemberDiff :=
  let states := focaStates listed
  let toUpdate := states.toList.filterMap (updateOf clock memberId members last)
  let updated := toUpdate.foldl (fun held entry => held.insert entry.1.id.id entry) last
  let keeps := fun id : ActorId => (states[id]?).any fun member => decide (member.id.memberId = memberId)
  { lastStates := updated.filter fun id _ => keeps id
    toUpdate
    toDelete := updated.keys.filter fun id => !keeps id
    notifications :=
      states.toList.filterMap (upNotification members) ++ members.states.toList.filterMap (downNotification states) }

/-! ### `handle_notifications` -/

/-- What the Plumtree loop is told. -/
inductive PlumtreeUpdate where
  | memberUp (actorId : ActorId) (addr : SocketAddr) (ring : Option Nat)
  | memberDown (actorId : ActorId)
deriving DecidableEq

inductive NotificationEffect where
  | clusterSize (size : Nat)
  | plumtree (update : PlumtreeUpdate)
deriving DecidableEq

/-- The size goes to foca as a `NonZeroU32`. -/
def clusterSizeEffect (members : Members) : List NotificationEffect :=
  let size := members.states.size % 4294967296
  if size = 0 then [] else [.clusterSize size]

variable (usesPlumtree : Bool)

/-- `send_plumtree_member_update`. -/
def plumtreeEffect (actor : Actor) : MemberAddedResult → List NotificationEffect
  | .removed => if usesPlumtree then [.plumtree (.memberDown actor.id)] else []
  | .newMember state | .updated state => if usesPlumtree then [.plumtree (.memberUp actor.id state.addr state.ring)]
    else []
  | .ignored => []

/-- What follows the result of `add_member`. -/
def addedEffects (members : Members) (actor : Actor) : MemberAddedResult → List NotificationEffect
  | .newMember state => clusterSizeEffect members ++ plumtreeEffect usesPlumtree actor (.newMember state)
  | .removed => clusterSizeEffect members ++ plumtreeEffect usesPlumtree actor .removed
  | .updated _ => []
  | .ignored => []

/-- The same id was taken out and put in again. -/
def reinserted (before after : Actor) (removed : Bool) : MemberAddedResult → Bool
  | .newMember _ => decide (before.id = after.id) && removed
  | _ => false

/-- One turn of `handle_notifications`. -/
def handleNotification (members : Members) :
    OwnedNotification → Members × List NotificationEffect
  | .memberUp actor =>
    let (members, result) := members.addMember clock actor
    (members, addedEffects usesPlumtree members actor result)
  | .memberDown actor =>
    let (members, removed) := members.removeMember clock actor
    (members, if removed then clusterSizeEffect members ++ plumtreeEffect usesPlumtree actor .removed else [])
  | .rename before after =>
    let (without, removed) := members.removeMember clock before
    let (members, result) := without.addMember clock after
    (members,
      if reinserted before after removed result then []
      else (if removed then plumtreeEffect usesPlumtree before .removed else []) ++
        plumtreeEffect usesPlumtree after result)
  | .active | .idle | .defunct | .rejoin _ => (members, [])

/-- The members after all these notifications. -/
def handleAll (notifications : List OwnedNotification) (members : Members) : Members :=
  notifications.foldl (fun members notification => (handleNotification clock usesPlumtree members notification).1)
    members

/-! ### What a notification does to one actor -/

/-- The identity that is recorded of an actor. -/
def Members.identity (self : Members) (id : ActorId) : Option Actor :=
    (self.states[id]?).map fun state => state.toActor id

/-- The actor that comes or goes. -/
def OwnedNotification.about : OwnedNotification → Option ActorId
  | .memberUp actor => some actor.id
  | .memberDown actor => some actor.id
  | _ => none

/-- What `add_member` makes of the identity that is recorded of the actor. -/
def addedIdentity (memberId : Option MemberId) (actor : Actor) (held : Option Actor) : Option Actor :=
  if actor.memberId ≠ memberId then none
  else
    match held with
    | none => some actor
    | some known => if clock known.ts < clock actor.ts then some actor else some known

/-- What `remove_member` makes of it. -/
def removedIdentity (actor : Actor) (held : Option Actor) : Option Actor :=
  match held with
  | none => none
  | some known => if clock known.ts = clock actor.ts then none else some known

def effectOn (memberId : Option MemberId) (notification : OwnedNotification) (held : Option Actor) :
    Option Actor :=
  match notification with
  | .memberUp actor => addedIdentity clock memberId actor held
  | .memberDown actor => removedIdentity clock actor held
  | _ => held

variable {state : MemberState}

section
variable {clock} {usesPlumtree} {members : Members} {actor : Actor} {id : ActorId}

theorem Members.identity_recalculateRings : (members.recalculateRings addr).identity = members.identity := by
  funext id
  rw [identity, states_recalculateRings, Option.map_map, identity]
  apply congrArg (Option.map · _)
  funext state
  change (if members.byAddr[addr]? = some id then members.ringed addr state else state).toActor id = _
  by_cases own : members.byAddr[addr]? = some id
  · rw [if_pos own]
    unfold ringed
    cases members.rtts[addr]?.bind Rtt.maxMs with
    | none => rfl
    | some _ => rfl
  · rw [if_neg own]

theorem Members.identity_insert {byAddr : Map SocketAddr ActorId} :
    { members with states := members.states.insert id state, byAddr }.identity =
      Function.update members.identity id (some (state.toActor id)) := by
  funext other
  change ((fun other => (members.states.insert id state)[other]?) other).map _ = _
  rw [lookup_insert, update_apply, update_apply]
  by_cases own : other = id
  · subst own
    rw [if_pos rfl, if_pos rfl]
    rfl
  · rw [if_neg own, if_neg own]
    rfl

theorem Members.identity_erase {byAddr : Map SocketAddr ActorId} :
    { members with states := members.states.erase id, byAddr }.identity = Function.update members.identity id none := by
  funext other
  change ((fun other => (members.states.erase id)[other]?) other).map _ = _
  rw [lookup_erase, update_apply, update_apply]
  by_cases own : other = id
  · rw [if_pos own, if_pos own]
    rfl
  · rw [if_neg own, if_neg own]
    rfl

theorem identity_none (new : members.states[id]? = none) : members.identity id = none := by
  rw [Members.identity, new]
  rfl

theorem identity_some (known : members.states[id]? = some state) : members.identity id = some (state.toActor id) := by
  rw [Members.identity, known]
  rfl

theorem Members.identity_addMember : (members.addMember clock actor).1.identity =
      Function.update members.identity actor.id (addedIdentity clock members.memberId actor
        (members.identity actor.id)) := by
  unfold addMember addedIdentity
  by_cases other : actor.memberId ≠ members.memberId
  · rw [if_pos other, if_pos other]
    exact identity_erase
  · rw [if_neg other, if_neg other]
    cases found : members.states[actor.id]? with
    | none =>
      rw [identity_recalculateRings, identity_insert, identity_none found]
      rfl
    | some member =>
      have held := identity_some found
      rw [held]
      dsimp only
      by_cases newer : clock member.ts < clock actor.ts
      · have renewed : clock (member.toActor actor.id).ts < clock actor.ts := newer
        rw [if_pos newer, if_pos renewed]
        exact identity_insert
      · have kept : ¬clock (member.toActor actor.id).ts < clock actor.ts := newer
        rw [if_neg newer, if_neg kept, ← held, update_eq_self]

theorem Members.identity_removeMember : (members.removeMember clock actor).1.identity =
      Function.update members.identity actor.id (removedIdentity clock actor (members.identity actor.id)) := by
  unfold removeMember removedIdentity
  cases found : members.states[actor.id]? with
  | none =>
    have new := identity_none found
    rw [new]
    exact (new ▸ update_eq_self actor.id members.identity).symm
  | some member =>
    have held := identity_some found
    rw [held]
    dsimp only
    by_cases same : clock member.ts = clock actor.ts
    · have ended : clock (member.toActor actor.id).ts = clock actor.ts := same
      rw [if_pos same, if_pos ended]
      exact identity_erase
    · have kept : ¬clock (member.toActor actor.id).ts = clock actor.ts := same
      rw [if_neg same, if_neg kept, ← held, update_eq_self]

theorem Members.memberId_addMember : (members.addMember clock actor).1.memberId = members.memberId := by
  unfold addMember
  by_cases other : actor.memberId ≠ members.memberId
  · rw [if_pos other]
  · rw [if_neg other]
    cases members.states[actor.id]? with
    | none =>
      dsimp only
      obtain ⟨states, is⟩ := @recalculateRings_eq { members with
        states := members.states.insert actor.id (.new actor.addr actor.ts actor.clusterId actor.memberId)
        byAddr := members.byAddr.insert actor.addr actor.id } actor.addr
      rw [is]
    | some member =>
      dsimp only
      by_cases newer : clock member.ts < clock actor.ts
      · rw [if_pos newer]
      · rw [if_neg newer]

theorem Members.memberId_removeMember : (members.removeMember clock actor).1.memberId = members.memberId := by
  unfold removeMember
  cases members.states[actor.id]? with
  | none => rfl
  | some member =>
    dsimp only
    by_cases same : clock member.ts = clock actor.ts
    · rw [if_pos same]
    · rw [if_neg same]

variable {notification : OwnedNotification} {key : ActorId}

/-- A notification about an actor does not touch the others. -/
theorem identity_handleNotification (about : notification.about = some key) :
    (handleNotification clock usesPlumtree members notification).1.identity =
      Function.update members.identity key (effectOn clock members.memberId notification (members.identity key)) := by
  cases notification with
  | memberUp actor =>
    cases about
    exact Members.identity_addMember
  | memberDown actor =>
    cases about
    exact Members.identity_removeMember
  | _ => cases about

theorem memberId_handleNotification (about : notification.about = some key) :
    (handleNotification clock usesPlumtree members notification).1.memberId = members.memberId := by
  cases notification with
  | memberUp actor => exact Members.memberId_addMember
  | memberDown actor => exact Members.memberId_removeMember
  | _ => cases about

/-- The notifications are about actors, each about another one. -/
structure Separate (notifications : List OwnedNotification) : Prop where
  about : ∀ notification ∈ notifications, ∃ key, notification.about = some key
  distinct : notifications.Pairwise fun first second => first.about ≠ second.about

variable {notifications : List OwnedNotification}

theorem Separate.tail (separate : Separate (notification :: notifications)) : Separate notifications :=
  ⟨fun other listed => separate.about other (List.mem_cons_of_mem _ listed),
    (List.pairwise_cons.mp separate.distinct).2⟩

/-- An actor that no notification is about stays as it is. -/
theorem handleAll_untouched (separate : Separate notifications)
    (unnamed : ∀ notification ∈ notifications, notification.about ≠ some id) :
    (handleAll clock usesPlumtree notifications members).identity id = members.identity id := by
  induction notifications generalizing members with
  | nil => rfl
  | cons first _ ih =>
    obtain ⟨key, about⟩ := separate.about first mem_cons_self
    have different : id ≠ key := by
      rintro rfl
      exact unnamed first mem_cons_self about
    have later := @ih (handleNotification clock usesPlumtree members first).1 separate.tail
      fun other listed => unnamed other (mem_cons_of_mem _ listed)
    rw [identity_handleNotification about, update_of_ne different] at later
    exact later

/-- One that a notification is about gets what the notification does, whatever comes
before and after it. -/
theorem handleAll_own (separate : Separate notifications) (listed : notification ∈ notifications)
    (about : notification.about = some id) : (handleAll clock usesPlumtree notifications members).identity id =
      effectOn clock members.memberId notification (members.identity id) := by
  induction notifications generalizing members with
  | nil => cases listed
  | cons first _ ih =>
    obtain ⟨others, -⟩ := pairwise_cons.mp separate.distinct
    rcases mem_cons.mp listed with rfl | later
    · have handled :=
        @handleAll_untouched clock usesPlumtree (handleNotification clock usesPlumtree members notification).1 id _
        separate.tail fun other isOther same => others other isOther (about.trans same.symm)
      rw [identity_handleNotification about, update_self] at handled
      exact handled
    · obtain ⟨key, isKey⟩ := separate.about first mem_cons_self
      have different : id ≠ key := by
        rintro rfl
        exact others notification later (isKey.trans about.symm)
      have handled := @ih (handleNotification clock usesPlumtree members first).1 separate.tail later
      rw [identity_handleNotification isKey, update_of_ne different, memberId_handleNotification isKey] at handled
      exact handled

end

/-! ### The notifications of a comparison -/

section
variable {members : Members} {listed : List FocaMember} {states} {id : ActorId} {notification : OwnedNotification}

/-- Each entry is about the actor under whose id it stands. -/
def Filed (states : Map ActorId FocaMember) : Prop := ∀ (id : ActorId) member, states[id]? = some member →
    member.id.id = id

variable {member : FocaMember}

theorem filed_insert (filed : Filed states) : Filed (states.insert member.id.id member) := by
  intro id other found
  rw [Std.ExtTreeMap.getElem?_insert] at found
  rcases ite_eq_iff.mp found with ⟨own, found⟩ | ⟨own, found⟩
  · cases found
    exact Std.LawfulEqOrd.compare_eq_iff_eq.mp own
  · exact filed id other found

theorem filed_note (filed : Filed states) : Filed (noteFocaMember states member) := by
  unfold noteFocaMember
  cases states[member.id.id]? with
  | none => exact filed_insert filed
  | some prev =>
    dsimp only
    by_cases newer : prev.id.ts < member.id.ts
    · rw [if_pos newer]
      exact filed_insert filed
    · rw [if_neg newer]
      exact filed

theorem filed_focaStates (listed : List FocaMember) : Filed (focaStates listed) := by
  have each : ∀ states, Filed states → Filed (listed.foldl noteFocaMember states) := by
    induction listed with
    | nil => exact fun _ filed => filed
    | cons _ _ ih => exact fun _ filed => ih _ (filed_note filed)
  apply each
  intro id _ found
  cases found

/-- All notifications of a comparison. -/
def comparison (states : Map ActorId FocaMember) (members : Members) : List OwnedNotification :=
  states.toList.filterMap (upNotification members) ++ members.states.toList.filterMap (downNotification states)

/-- The one notification about an actor. -/
def notificationFor (states : Map ActorId FocaMember) (members : Members) (id : ActorId) : Option OwnedNotification :=
  match members.states[id]? with
  | some state => downNotification states (id, state)
  | none => (states[id]?).bind fun member => upNotification members (id, member)

theorem about_up (own : member.id.id = id) (up : upNotification members (id, member) = some notification) :
    notification.about = some id ∧ members.states[id]? = none := by
  rcases ite_eq_iff.mp up with ⟨fresh, up⟩ | ⟨fresh, up⟩
  · cases up
    exact ⟨congrArg some own, isNone_iff_eq_none.mp fresh.2⟩
  · cases up

theorem about_down (filed : Filed states) (down : downNotification states (id, state) = some notification) :
    notification.about = some id := by
  unfold downNotification at down
  cases found : states[id]? with
  | none =>
    rw [found] at down
    cases down
    rfl
  | some member =>
    rw [found] at down
    rcases ite_eq_iff.mp down with ⟨-, down⟩ | ⟨-, down⟩
    · cases down
    · cases down
      exact congrArg some (filed id member found)

/-- The notifications of a comparison are those about each of the actors. -/
theorem mem_notifications (filed : Filed states) : notification ∈ comparison states members ↔
      ∃ id, notification.about = some id ∧ notificationFor states members id = some notification := by
  rw [comparison, mem_append, mem_filterMap, mem_filterMap]
  constructor
  · rintro (⟨⟨id, member⟩, isEntry, up⟩ | ⟨⟨id, state⟩, isEntry, down⟩)
    · have found := mem_toList_iff_getElem?_eq_some.mp isEntry
      obtain ⟨about, new⟩ := about_up (filed id member found) up
      refine ⟨id, about, ?_⟩
      rw [notificationFor, new, found]
      exact up
    · have found := mem_toList_iff_getElem?_eq_some.mp isEntry
      refine ⟨id, about_down filed down, ?_⟩
      rw [notificationFor, found]
      exact down
  · rintro ⟨id, -, isFor⟩
    unfold notificationFor at isFor
    cases held : members.states[id]? with
    | some state =>
      rw [held] at isFor
      exact .inr ⟨(id, state), mem_toList_iff_getElem?_eq_some.mpr held, isFor⟩
    | none =>
      rw [held] at isFor
      obtain ⟨member, found, up⟩ := bind_eq_some_iff.mp isFor
      exact .inl ⟨(id, member), mem_toList_iff_getElem?_eq_some.mpr found, up⟩

theorem separate_notifications (filed : Filed states) : Separate (comparison states members) where
  about notification listed := by
    obtain ⟨id, about, -⟩ := (mem_notifications filed).mp listed
    exact ⟨id, about⟩
  distinct := by
    have differ : ∀ {ι : Type} {entries : List (ActorId × ι)} {f : ActorId × ι → Option OwnedNotification},
        (∀ entry ∈ entries, ∀ notification, f entry = some notification → notification.about = some entry.1) →
        entries.Pairwise (fun first second => ¬compare first.1 second.1 = .eq) →
        (entries.filterMap f).Pairwise fun first second => first.about ≠ second.about := by
      intro ι entries f about distinct
      rw [pairwise_filterMap]
      refine distinct.imp_of_mem fun {first second} isFirst isSecond apart one isOne two isTwo same => apart ?_
      rw [about first isFirst one isOne, about second isSecond two isTwo] at same
      exact Std.LawfulEqOrd.compare_eq_iff_eq.mpr (some.inj same)
    rw [comparison, pairwise_append]
    refine ⟨differ ?_ distinct_keys_toList, differ ?_ distinct_keys_toList, ?_⟩
    · rintro ⟨id, member⟩ isEntry notification up
      exact (about_up (filed id member (mem_toList_iff_getElem?_eq_some.mp isEntry)) up).1
    · rintro ⟨id, state⟩ isEntry notification down
      exact about_down filed down
    · intro first isFirst second isSecond same
      obtain ⟨⟨id, member⟩, isEntry, up⟩ := mem_filterMap.mp isFirst
      obtain ⟨⟨_, state⟩, isOther, down⟩ := mem_filterMap.mp isSecond
      obtain ⟨about, new⟩ := about_up (filed id member (mem_toList_iff_getElem?_eq_some.mp isEntry)) up
      rw [about, about_down filed down] at same
      cases same
      rw [mem_toList_iff_getElem?_eq_some.mp isOther] at new
      cases new

end

/-! ### Convergence -/

/-- The identity that foca reports of an actor that is active with our member id. -/
def reported (memberId : Option MemberId) (id : ActorId) : Option Actor :=
  (states[id]?).bind fun member => if member.state.isActive ∧
    member.id.memberId = memberId then some member.id else none

/-- Both or none, and the same. -/
def Agrees : Option Actor → Option Actor → Prop
  | none, none => True
  | some left, some right => left.Same clock right
  | _, _ => False

/-- The members are the actors that foca reports, with the identities it reports. -/
def Reconciled (members : Members) : Prop :=
  ∀ id, Agrees clock (members.identity id) (reported states members.memberId id)

/-- What is recorded of a member is not at odds with what foca says of it: an active one
has our member id and the recorded identity, and one that is down has the recorded
timestamp. -/
def Current (members : Members) (id : ActorId) : Prop :=
  ∀ held, members.identity id = some held → ∀ member, states[id]? = some member →
    if member.state.isActive then held.Same clock member.id ∧ member.id.memberId = members.memberId
    else clock held.ts = clock member.id.ts

section
variable {clock} {states} {usesPlumtree} {members : Members} {id : ActorId}
  {order : List OwnedNotification}

theorem Actor.Same.refl (clock : Timestamp → Nat) (actor : Actor) : actor.Same clock actor := ⟨rfl, rfl, rfl, rfl, rfl⟩

/-- The identity of an actor after all notifications is decided by the one about it. -/
theorem identity_handleAll (filed : Filed states) (isOrder : order.Perm (comparison states members)) :
    (handleAll clock usesPlumtree order members).identity id =
      match notificationFor states members id with
      | some notification => effectOn clock members.memberId notification (members.identity id)
      | none => members.identity id := by
  have separate : Separate order := by
    have all := @separate_notifications _ members filed
    refine ⟨fun notification listed => all.about notification (isOrder.mem_iff.mp listed), ?_⟩
    exact (isOrder.pairwise_iff fun differ => differ.symm).mpr all.distinct
  cases isFor : notificationFor states members id with
  | some notification =>
    have about : notification.about = some id := by
      unfold notificationFor at isFor
      cases held : members.states[id]? with
      | some _ =>
        rw [held] at isFor
        exact about_down filed isFor
      | none =>
        rw [held] at isFor
        obtain ⟨member, found, up⟩ := bind_eq_some_iff.mp isFor
        exact (about_up (filed id member found) up).1
    exact handleAll_own separate (isOrder.mem_iff.mpr ((mem_notifications filed).mpr ⟨id, about, isFor⟩)) about
  | none =>
    apply handleAll_untouched separate
    intro notification listed about
    obtain ⟨_, isOther, same⟩ := (mem_notifications filed).mp (isOrder.mem_iff.mp listed)
    rw [about] at isOther
    cases isOther
    rw [isFor] at same
    cases same

theorem memberId_handleAll (about : ∀ notification ∈ order, ∃ key, notification.about = some key) :
    (handleAll clock usesPlumtree order members).memberId = members.memberId := by
  induction order generalizing members with
  | nil => rfl
  | cons first _ ih =>
    obtain ⟨key, isKey⟩ := about first mem_cons_self
    have handled := @ih (handleNotification clock usesPlumtree members first).1 fun other listed =>
      about other (mem_cons_of_mem _ listed)
    rw [memberId_handleNotification isKey] at handled
    exact handled

/-- The identity of an actor that foca does not know, or does not call active, after the
notification about it. -/
theorem handled_inactive {held : Option Actor} :
    Agrees clock (removedIdentity clock actor held) none ↔ ∀ known, held = some known →
      clock known.ts = clock actor.ts := by
  cases held with
  | none =>
    refine ⟨fun _ known same => ?_, fun _ => trivial⟩
    cases same
  | some known =>
    unfold removedIdentity
    dsimp only
    by_cases same : clock known.ts = clock actor.ts
    · rw [if_pos same]
      refine ⟨fun _ other isOther => ?_, fun _ => trivial⟩
      cases isOther
      exact same
    · rw [if_neg same]
      exact ⟨fun impossible => impossible.elim, fun each => same (each known rfl)⟩

/-- After the notification about it an actor is as foca reports it, exactly if it was current. -/
theorem agrees_iff (filed : Filed states) (isOrder : order.Perm (comparison states members)) :
    Agrees clock ((handleAll clock usesPlumtree order members).identity id) (reported states members.memberId id) ↔
      Current clock states members id := by
  rw [identity_handleAll filed isOrder]
  unfold notificationFor reported Current
  cases known : members.states[id]? with
  | none =>
    rw [identity_none known]
    refine iff_of_true ?_ fun held same => ?_
    · cases found : states[id]? with
      | none => trivial
      | some member =>
        simp only [bind_some]
        unfold upNotification
        have fresh := isNone_iff_eq_none.mpr known
        by_cases active : member.state.isActive
        · rw [if_pos ⟨active, fresh⟩]
          change Agrees clock (addedIdentity clock members.memberId member.id none) _
          unfold addedIdentity
          by_cases ours : member.id.memberId = members.memberId
          · rw [if_neg (not_not.mpr ours), if_pos ⟨active, ours⟩]
            exact Actor.Same.refl clock member.id
          · rw [if_pos ours, if_neg fun both => ours both.2]
            trivial
        · rw [if_neg fun both => active both.1, if_neg fun both => active both.1]
          trivial
    · cases same
  | some state =>
    rw [identity_some known]
    unfold downNotification
    dsimp only
    cases found : states[id]? with
    | none =>
      refine iff_of_true ?_ fun held _ member same => ?_
      · change Agrees clock (removedIdentity clock (state.toActor id) (some (state.toActor id))) none
        rw [handled_inactive]
        intro held same
        cases same
        rfl
      · cases same
    | some member =>
      simp only [some.injEq, forall_eq', bind_some]
      by_cases active : member.state.isActive
      · rw [if_pos active, if_pos active]
        by_cases ours : member.id.memberId = members.memberId
        · rw [if_pos ⟨active, ours⟩, and_iff_left ours]
          exact Iff.rfl
        · rw [if_neg fun both => ours both.2]
          exact ⟨fun impossible => impossible.elim, fun both => ours both.2⟩
      · rw [if_neg active, if_neg active, if_neg fun both => active both.1]
        change Agrees clock (removedIdentity clock member.id (some (state.toActor id))) none ↔ _
        rw [handled_inactive]
        simp

/-- An actor that foca reports is a member afterwards, so that nothing is said of it again. -/
theorem reported_is_member (filed : Filed states) (isOrder : order.Perm (comparison states members))
    (isReported : reported states members.memberId id = some actor) :
    notificationFor states (handleAll clock usesPlumtree order members) id = none := by
  obtain ⟨member, found, isActor⟩ := bind_eq_some_iff.mp isReported
  have both : member.state.isActive ∧ member.id.memberId = members.memberId := by
    by_contra other
    rw [if_neg other] at isActor
    cases isActor
  have held : (handleAll clock usesPlumtree order members).identity id ≠ none := by
    rw [identity_handleAll filed isOrder]
    unfold notificationFor
    cases known : members.states[id]? with
    | none =>
      have fresh := isNone_iff_eq_none.mpr known
      simp only [found, bind_some]
      rw [upNotification, if_pos ⟨both.1, fresh⟩, identity_none known]
      change addedIdentity clock members.memberId member.id none ≠ none
      rw [addedIdentity, if_neg (not_not.mpr both.2)]
      exact some_ne_none _
    | some state =>
      simp only [downNotification, found, if_pos both.1]
      rw [identity_some known]
      exact some_ne_none _
  unfold notificationFor
  cases known : (handleAll clock usesPlumtree order members).states[id]? with
  | none => exact absurd (identity_none known) held
  | some state =>
    simp only [downNotification, found, if_pos both.1]

end

/-- Once all notifications have been handled, in whatever order, the members are exactly
the actors that foca reports as active with our member id, each with the identity it
reports, and another comparison has nothing to say about them, if and only if what was
recorded of the members before was current: the comparison says nothing about a member that
is still active, and a member that is down is removed under its recorded timestamp only. -/
theorem reconciliation_converges_iff (clock : Timestamp → Nat) (usesPlumtree : Bool) (memberId : Option MemberId)
    (members : Members) (listed : List FocaMember) (last : Map ActorId (FocaMember × Option Nat))
    (order : List OwnedNotification)
    (isOrder : order.Perm (diffMemberStates clock memberId members listed last).notifications) :
    (Reconciled clock (focaStates listed) (handleAll clock usesPlumtree order members) ∧
      ∀ last, ∀ notification ∈ (diffMemberStates clock memberId (handleAll clock usesPlumtree order members) listed
        last).notifications,
        ∀ id, notification.about = some id → reported (focaStates listed) members.memberId id = none) ↔
      ∀ id, Current clock (focaStates listed) members id := by
  have filed := filed_focaStates listed
  have ours : (handleAll clock usesPlumtree order members).memberId = members.memberId := by
    apply memberId_handleAll
    intro notification isListed
    exact (separate_notifications filed).about notification (isOrder.mem_iff.mp isListed)
  constructor
  · rintro ⟨reconciled, -⟩ id
    have agrees := reconciled id
    rw [ours] at agrees
    exact (agrees_iff filed isOrder).mp agrees
  · intro current
    constructor
    · intro id
      rw [ours]
      exact (agrees_iff filed isOrder).mpr (current id)
    · intro _ notification isListed id about
      obtain ⟨_, isOther, isFor⟩ := (mem_notifications filed).mp isListed
      rw [about] at isOther
      cases isOther
      cases isReported : reported (focaStates listed) members.memberId id with
      | none => rfl
      | some _ =>
        rw [reported_is_member filed isOrder isReported] at isFor
        cases isFor

/-- A node in one of its lives, and what foca says of it. -/
def lifeOf (addr : SocketAddr) (ts : Timestamp) : Actor := ⟨1, addr, ts, 0, none⟩

/-- The member from the life that began at 1. -/
def knownLife : Members := ((Members.new none).addMember (fun ts => ts) (lifeOf 10 1)).1

/-- A member that came back at another address is not brought up to date: there is no
notification about it. -/
theorem renewed_identity_missed :
    (diffMemberStates (fun ts => ts) none knownLife [⟨lifeOf 20 2, 0, .alive⟩] ∅).notifications = [] ∧
      ¬Reconciled (fun ts => ts) (focaStates [⟨lifeOf 20 2, 0, .alive⟩])
        (handleAll (fun ts => ts) true [] knownLife) := by
  constructor
  · decide +kernel
  · intro reconciled
    have agrees := reconciled 1
    exact absurd agrees.2.1 (by decide)

/-- A member that is reported down under its recorded timestamp goes. -/
theorem ended_life_removed : Reconciled (fun ts => ts) (focaStates [⟨lifeOf 10 1, 0, .down⟩])
    (handleAll (fun ts => ts) true [.memberDown (lifeOf 10 1)] knownLife) := by
  have isOrder : [OwnedNotification.memberDown (lifeOf 10 1)].Perm
      (diffMemberStates (fun ts => ts) none knownLife [⟨lifeOf 10 1, 0, .down⟩] ∅).notifications := by decide +kernel
  apply ((reconciliation_converges_iff (fun ts => ts) true none knownLife [⟨lifeOf 10 1, 0, .down⟩] ∅ _ isOrder).mpr
    ?_).1
  intro id _ isHeld _ found
  rw [focaStates, foldl_cons, foldl_nil, noteFocaMember, Std.ExtTreeMap.getElem?_empty] at found
  rw [Std.ExtTreeMap.getElem?_insert] at found
  by_cases own : compare (lifeOf 10 1).id id = .eq
  · have isId : (1 : ActorId) = id := Std.LawfulEqOrd.compare_eq_iff_eq.mp own
    subst isId
    have recorded : knownLife.identity 1 = some (lifeOf 10 1) := by decide +kernel
    cases recorded.symm.trans isHeld
    cases found
    rfl
  · rw [if_neg own, Std.ExtTreeMap.getElem?_empty] at found
    cases found

end Galvanize
