import FastapiBoilerplate.Ws.Rooms

/-!
# Two indices of one relation

What a registry is for is to know who is in which room, and since when: a list of memberships, in
the order they began. The two dictionaries are that list seen from its rooms and from its members
(`Describes`), and every call does to them what it says it does to the list. So the two never
disagree, and neither keeps an empty entry, since an empty entry describes nothing.

A broadcast walks over the members there were when it started and takes those who refuse out of all
their rooms while it walks (`broadcast_eq`).
-/

namespace Ws

open Lib List

variable {μ σ : Type} [DecidableEq μ]

/-! ## Memberships -/

/-- Who is in which room, in the order they joined. -/
abbrev Memberships (μ : Type) := List (Text × μ)

/-- Who is in a room, in the order they joined it. -/
def membersOf (ms : Memberships μ) (room : Text) : List μ :=
  (ms.filter fun p => p.1 = room).map Prod.snd

/-- Each is offered the payload, in this order; what they answer, and their state. -/
def offers (offer : σ → μ → Bool × σ) : List μ → σ → List Bool × σ
  | [], s => ([], s)
  | member :: members, s =>
    let (took, s) := offer s member
    let (answers, s) := offers offer members s
    (took :: answers, s)

/-- Those of a room who are offered a payload. -/
def targets (exclude : Option μ) (members : List μ) : List μ :=
  members.filter fun member => some member ≠ exclude

/-- Those who refused. -/
def refusing (offer : σ → μ → Bool × σ) (members : List μ) (s : σ) : List μ :=
  ((members.zip (offers offer members s).1).filter fun p => !p.2).map Prod.fst

inductive RoomCall (μ σ : Type)
  | join (room : Text) (member : μ)
  | leave (room : Text) (member : μ)
  | leaveAll (member : μ)
  | broadcast (room : Text) (exclude : Option μ) (s : σ)
  | close (members : Option (List μ))

/-- What a call does to the registry. -/
def RoomRegistry.call (offer : σ → μ → Bool × σ) (r : RoomRegistry μ) :
    RoomCall μ σ → RoomRegistry μ
  | .join room member => (r.join room member).2
  | .leave room member => (r.leave room member).2
  | .leaveAll member => (r.leaveAll member).2
  | .broadcast room exclude s => (r.broadcast offer room exclude s).2.2
  | .close members => (r.close members).2

/-- What a call is for. -/
def Memberships.call (offer : σ → μ → Bool × σ) (ms : Memberships μ) :
    RoomCall μ σ → Memberships μ
  | .join room member => if (room, member) ∈ ms then ms else ms ++ [(room, member)]
  | .leave room member => ms.filter fun p => p ≠ (room, member)
  | .leaveAll member => ms.filter fun p => p.2 ≠ member
  | .broadcast room exclude s =>
    ms.filter fun p => p.2 ∉ refusing offer (targets exclude (membersOf ms room)) s
  | .close none => []
  | .close (some members) => ms.filter fun p => p.2 ∉ members

namespace RoomRegistry

def members (r : RoomRegistry μ) (room : Text) : List μ := (r.rooms.get room).getD []

/-- The two indices describe the same relation, and keep nothing that says nothing. -/
structure Consistent (r : RoomRegistry μ) : Prop where
  same : ∀ room member, member ∈ r.members room ↔ room ∈ r.roomsOf member
  once : ∀ room, (r.members room).Nodup
  occupied : ∀ room, r.rooms.get room ≠ some []
  somewhere : ∀ member, r.joined.get member ≠ some []

/-- What a broadcast is to do, of a registry: those who were in the room, but for the one that is
    left out, are offered it in the order they joined; it counts those who took it; and those who
    refused are in no room any more. -/
structure Delivers (offer : σ → μ → Bool × σ) (r : RoomRegistry μ) (room : Text)
    (exclude : Option μ) (s : σ) (result : ℕ × σ × RoomRegistry μ) : Prop where
  counted : result.1 =
    (offers offer (targets exclude (r.members room)) s).1.count true
  offered : result.2.1 = (offers offer (targets exclude (r.members room)) s).2
  members : ∀ room', result.2.2.members room' = (r.members room').filter fun member =>
    member ∉ refusing offer (targets exclude (r.members room)) s
  roomsOf : ∀ member, result.2.2.roomsOf member =
    if member ∈ refusing offer (targets exclude (r.members room)) s then [] else r.roomsOf member

/-! ## The two sides -/

/-- The dictionary of rooms, as the memberships have it. -/
def RoomsDescribe (rooms : Dict Text (List μ)) (ms : Memberships μ) : Prop :=
  ∀ room, rooms.get room = Dict.listed (membersOf ms room)

/-- The dictionary of members. -/
structure JoinedDescribe (joined : Dict μ (List Text)) (ms : Memberships μ) : Prop where
  mem : ∀ room member, room ∈ (joined.get member).getD [] ↔ (room, member) ∈ ms
  nodup : ∀ member, ((joined.get member).getD []).Nodup
  listed : ∀ member, joined.get member = Dict.listed ((joined.get member).getD [])

structure Describes (r : RoomRegistry μ) (ms : Memberships μ) : Prop where
  nodup : ms.Nodup
  rooms : RoomsDescribe r.rooms ms
  joined : JoinedDescribe r.joined ms

variable {r : RoomRegistry μ} {member : μ}

section
omit [DecidableEq μ]

variable {ms : Memberships μ}

theorem mem_membersOf {room : Text} : member ∈ membersOf ms room ↔ (room, member) ∈ ms := by
  simp [membersOf]

theorem nodup_membersOf (h : ms.Nodup) (room : Text) : (membersOf ms room).Nodup := by
  refine List.Nodup.map_on ?_ (h.filter _)
  intro p hp q hq heq
  have hp' := of_decide_eq_true (mem_filter.mp hp).2
  have hq' := of_decide_eq_true (mem_filter.mp hq).2
  exact Prod.ext (hp'.trans hq'.symm) heq

theorem membersOf_filter (ms : Memberships μ) (keep : μ → Bool) (room : Text) :
    membersOf (ms.filter fun p => keep p.2) room = (membersOf ms room).filter keep := by
  unfold membersOf
  rw [filter_map, filter_filter, filter_filter]
  congr 1
  apply filter_congr
  intro p _
  exact Bool.and_comm _ _

theorem membersOf_append (ms : Memberships μ) (room room' : Text) (member : μ) :
    membersOf (ms ++ [(room', member)]) room =
      if room = room' then membersOf ms room ++ [member] else membersOf ms room := by
  unfold membersOf
  rw [filter_append, map_append]
  split
  · subst_vars
    congr 1
    simp
  · rename_i hne
    rw [filter_cons_of_neg]
    · exact append_nil _
    · exact fun heq => hne (of_decide_eq_true heq).symm

theorem members_eq (h : RoomsDescribe r.rooms ms) (room : Text) :
    r.members room = membersOf ms room := by
  unfold members
  rw [h room, Dict.getD_listed]

end

variable {ms : Memberships μ} {r : RoomRegistry μ}

theorem membersOf_remove (hnodup : ms.Nodup) (room room' : Text) (member : μ) :
    membersOf (ms.filter fun p => p ≠ (room, member)) room' =
      if room' = room then (membersOf ms room').erase member else membersOf ms room' := by
  split
  · subst_vars
    rw [(nodup_membersOf hnodup room').erase_eq_filter]
    unfold membersOf
    rw [filter_map, filter_filter, filter_filter]
    congr 1
    apply filter_congr
    intro p _
    by_cases hroom : p.1 = room' <;> by_cases hmember : p.2 = member <;>
      simp [Prod.ext_iff, hroom, hmember]
  · rename_i hne
    unfold membersOf
    rw [filter_filter]
    congr 1
    apply filter_congr
    intro p _
    by_cases hroom : p.1 = room'
    · simp [Prod.ext_iff, hroom, hne]
    · simp [hroom]

theorem Describes.consistent (h : Describes r ms) : Consistent r where
  same := by
    intro room member
    rw [members_eq h.rooms, mem_membersOf]
    exact (h.joined.mem room member).symm
  once := by
    intro room
    rw [members_eq h.rooms]
    exact nodup_membersOf h.nodup room
  occupied := by
    intro room
    rw [h.rooms room]
    exact Dict.listed_ne_some_nil _
  somewhere := by
    intro member
    rw [h.joined.listed member]
    exact Dict.listed_ne_some_nil _

/-! ## What each call does -/

theorem roomsDescribe_remove (hnodup : ms.Nodup) (h : RoomsDescribe r.rooms ms) (room : Text)
    (member : μ) :
    RoomsDescribe (r.removeFromRoom room member).rooms
      (ms.filter fun p => p ≠ (room, member)) := by
  intro room'
  rw [membersOf_remove hnodup]
  have hmembers := members_eq h room
  unfold members at hmembers
  unfold removeFromRoom
  cases hget : r.rooms.get room with
  | none =>
    -- there is no such room, and nobody to take out of it
    rw [hget] at hmembers
    show r.rooms.get room' = _
    rw [h room']
    split
    · subst_vars
      rw [← hmembers]
      rfl
    · rfl
  | some =>
    rw [hget, Option.getD_some] at hmembers
    subst hmembers
    show (if (membersOf ms room).erase member = [] then r.rooms.erase room
      else r.rooms.set room ((membersOf ms room).erase member)).get room' = _
    rw [Dict.get_set_or_erase]
    split
    · subst_vars
      rfl
    · exact h room'

theorem joined_removeFromRoom (r : RoomRegistry μ) (room : Text) (member : μ) :
    (r.removeFromRoom room member).joined = r.joined := by
  unfold removeFromRoom
  split <;> rfl

/-- Memberships end on the members' side when their rooms are taken out of their entries. -/
theorem joinedDescribe_filter {joined joined' : Dict μ (List Text)}
    (h : JoinedDescribe joined ms) {keep : Text × μ → Bool}
    (hget : ∀ member, joined'.get member = Dict.listed
      (((joined.get member).getD []).filter fun room => keep (room, member))) :
    JoinedDescribe joined' (ms.filter keep) where
  mem := by
    intro room member
    rw [hget, Dict.getD_listed, mem_filter, mem_filter, h.mem]
  nodup := by
    intro member
    rw [hget, Dict.getD_listed]
    exact (h.nodup member).filter _
  listed := by
    intro member
    rw [hget, Dict.getD_listed]

theorem describes_join (h : Describes r ms) (room : Text) (member : μ) :
    Describes (r.join room member).2
      (if (room, member) ∈ ms then ms else ms ++ [(room, member)]) := by
  have hmem : room ∈ r.roomsOf member ↔ (room, member) ∈ ms := h.joined.mem room member
  unfold join
  dsimp only
  by_cases hin : (room, member) ∈ ms
  · rw [if_pos (hmem.mpr hin), if_pos hin]
    exact h
  rw [if_neg (mt hmem.mp hin), if_neg hin]
  -- a new membership comes last in the list, and last in both entries
  have hget : ∀ other, (r.joined.set member (r.roomsOf member ++ [room])).get other =
      if other = member then some (r.roomsOf member ++ [room]) else r.joined.get other :=
    fun other => Dict.get_set ..
  exact {
    nodup := h.nodup.append (nodup_singleton _) (disjoint_singleton.mpr hin)
    rooms := by
      intro room'
      rw [membersOf_append]
      show (r.rooms.set room (r.members room ++ [member])).get room' = _
      rw [Dict.get_set, members_eq h.rooms]
      split
      · subst_vars
        rw [Dict.listed, if_neg (append_ne_nil_of_right_ne_nil _ (cons_ne_nil _ _))]
      · exact h.rooms room'
    joined := {
      mem := by
        intro room' other
        show room' ∈ ((r.joined.set member _).get other).getD [] ↔ _
        rw [hget, mem_append, mem_singleton, ← h.joined.mem, Prod.ext_iff]
        split
        · subst_vars
          rw [Option.getD_some, mem_append, mem_singleton]
          simp [roomsOf]
        · rename_i hne
          simp [hne]
      nodup := by
        intro other
        show (((r.joined.set member _).get other).getD []).Nodup
        rw [hget]
        split
        · exact (h.joined.nodup member).append (nodup_singleton _)
            (disjoint_singleton.mpr (mt hmem.mp hin))
        · exact h.joined.nodup other
      listed := by
        intro other
        show (r.joined.set member _).get other =
          Dict.listed (((r.joined.set member _).get other).getD [])
        rw [hget]
        split
        · rw [Option.getD_some, Dict.listed,
            if_neg (append_ne_nil_of_right_ne_nil _ (cons_ne_nil _ _))]
        · exact h.joined.listed other } }

theorem describes_leave (h : Describes r ms) (room : Text) (member : μ) :
    Describes (r.leave room member).2 (ms.filter fun p => p ≠ (room, member)) := by
  have hmem : room ∈ r.roomsOf member ↔ (room, member) ∈ ms := h.joined.mem room member
  unfold leave
  split
  · exact {
      nodup := h.nodup.filter _
      rooms := by
        refine roomsDescribe_remove h.nodup ?_ room member
        exact h.rooms
      joined := by
        dsimp only
        rw [joined_removeFromRoom]
        refine joinedDescribe_filter h.joined ?_
        intro other
        rw [Dict.get_set_or_erase]
        split
        · subst_vars
          rw [roomsOf, (h.joined.nodup other).erase_eq_filter]
          congr 1
          apply filter_congr
          intro room' _
          by_cases hroom : room' = room <;> simp [hroom]
        · rename_i hne
          rw [filter_eq_self.mpr]
          · exact h.joined.listed other
          · intro room' _
            simp [hne] }
  · rename_i hout
    have hself : ms.filter (fun p => p ≠ (room, member)) = ms := by
      apply filter_eq_self.mpr
      intro p hp
      apply decide_eq_true
      rintro rfl
      exact hout (hmem.mpr hp)
    rw [hself]
    exact h

theorem joined_leaveAll (r : RoomRegistry μ) (member : μ) :
    (r.leaveAll member).2.joined = r.joined.erase member := by
  refine List.foldlRecOn (motive := fun r' : RoomRegistry μ => r'.joined = r.joined.erase member)
    _ _ rfl ?_
  intro r' h room _
  rw [joined_removeFromRoom, h]

theorem roomsDescribe_foldl {rooms : List Text} (hnodup : ms.Nodup) (h : RoomsDescribe r.rooms ms) :
    RoomsDescribe (rooms.foldl (fun r room => r.removeFromRoom room member) r).rooms
      (ms.filter fun p => ¬ (p.2 = member ∧ p.1 ∈ rooms)) := by
  induction rooms generalizing r ms with
  | nil =>
    rw [filter_eq_self.mpr]
    · exact h
    · intro p _
      simp
  | cons room rooms ih =>
    have hrest := ih (hnodup.filter _) (roomsDescribe_remove hnodup h room member)
    rw [filter_filter] at hrest
    rw [foldl_cons]
    refine cast (congrArg _ (filter_congr fun p _ => ?_)) hrest
    by_cases hmember : p.2 = member <;> by_cases hroom : p.1 = room <;>
      simp [Prod.ext_iff, hmember, hroom]

theorem describes_leaveAll (h : Describes r ms) (member : μ) :
    Describes (r.leaveAll member).2 (ms.filter fun p => p.2 ≠ member) where
  nodup := h.nodup.filter _
  rooms := by
    have hrooms : RoomsDescribe ((r.leaveAll member).2).rooms _ :=
      roomsDescribe_foldl (r := { r with joined := r.joined.erase member }) h.nodup h.rooms
    refine cast (congrArg _ (filter_congr fun p hp => ?_)) hrooms
    -- the rooms of the entry are all the rooms the member is in
    have hmem : p.2 = member → p.1 ∈ r.roomsOf member := by
      rintro rfl
      exact (h.joined.mem p.1 p.2).mpr hp
    by_cases hmember : p.2 = member
    · simp [hmember, hmem hmember]
    · simp [hmember]
  joined := by
    rw [joined_leaveAll]
    refine joinedDescribe_filter h.joined ?_
    intro other
    rw [Dict.get_erase]
    split
    · subst_vars
      rw [filter_eq_nil_iff.mpr]
      · rfl
      · simp
    · rename_i hne
      rw [filter_eq_self.mpr]
      · exact h.joined.listed other
      · simp [hne]

theorem describes_foldl_leaveAll (h : Describes r ms) (gone : List μ) :
    Describes (gone.foldl (fun r member => (r.leaveAll member).2) r)
      (ms.filter fun p => p.2 ∉ gone) := by
  induction gone generalizing r ms with
  | nil =>
    rw [filter_eq_self.mpr]
    · exact h
    · simp
  | cons member gone ih =>
    have hrest := ih (describes_leaveAll h member)
    rw [filter_filter] at hrest
    refine cast (congrArg _ (filter_congr fun p _ => ?_)) hrest
    simp [not_or, Bool.and_comm]

/-! ## Broadcasts -/

section
variable {offer : σ → μ → Bool × σ} {ms : Memberships μ}

theorem targets_cons (exclude : Option μ) (member : μ) (members : List μ) :
    targets exclude (member :: members) =
      if some member = exclude then targets exclude members
      else member :: targets exclude members := by
  unfold targets
  split
  · rw [filter_cons_of_neg (by simpa using ‹some member = exclude›)]
  · rw [filter_cons_of_pos (by simpa using ‹¬some member = exclude›)]

omit [DecidableEq μ] in
theorem refusing_cons (member : μ) (members : List μ) (s : σ) :
    refusing offer (member :: members) s =
      if (offer s member).1 then refusing offer members (offer s member).2
      else member :: refusing offer members (offer s member).2 := by
  unfold refusing
  show (((member, (offer s member).1) :: members.zip _).filter _).map Prod.fst = _
  split
  · rename_i htook
    rw [filter_cons_of_neg (by simpa using htook)]
  · rename_i hrefused
    rw [filter_cons_of_pos (by simpa using hrefused)]
    rfl

/-- The loop: those who refuse leave one after the other. -/
theorem offerAll_eq (exclude : Option μ) (members : List μ) (s : σ) (r : RoomRegistry μ) :
    offerAll offer exclude members s r =
      ((offers offer (targets exclude members) s).1.count true,
        (offers offer (targets exclude members) s).2,
        (refusing offer (targets exclude members) s).foldl (fun r m => (r.leaveAll m).2) r) := by
  induction members generalizing s r with
  | nil => rfl
  | cons member members ih =>
    rw [offerAll, targets_cons]
    split
    · exact ih s r
    rw [refusing_cons, offers]
    dsimp only
    split
    · rename_i htook
      rw [ih, htook, count_cons_self]
    · rename_i hrefused
      rw [ih, Bool.eq_false_iff.mpr hrefused, count_cons_of_ne (by decide)]
      rfl

theorem broadcast_eq (r : RoomRegistry μ) (room : Text) (exclude : Option μ) (s : σ) :
    r.broadcast offer room exclude s =
      ((offers offer (targets exclude (r.members room)) s).1.count true,
        (offers offer (targets exclude (r.members room)) s).2,
        (refusing offer (targets exclude (r.members room)) s).foldl
          (fun r m => (r.leaveAll m).2) r) :=
  offerAll_eq ..

theorem roomsOf_foldl_leaveAll (gone : List μ) (r : RoomRegistry μ) (member : μ) :
    (gone.foldl (fun r m => (r.leaveAll m).2) r).roomsOf member =
      if member ∈ gone then [] else r.roomsOf member := by
  induction gone generalizing r with
  | nil => rfl
  | cons other gone ih =>
    rw [foldl_cons, ih]
    unfold roomsOf
    rw [joined_leaveAll, Dict.get_erase]
    by_cases hother : member = other
    · simp [hother]
    · simp [hother]

theorem delivers_broadcast (h : Describes r ms) (room : Text) (exclude : Option μ) (s : σ) :
    Delivers offer r room exclude s (r.broadcast offer room exclude s) := by
  rw [broadcast_eq]
  exact {
    counted := rfl
    offered := rfl
    members := by
      intro room'
      rw [members_eq (describes_foldl_leaveAll h _).rooms, members_eq h.rooms room']
      exact membersOf_filter ms
        (fun m => m ∉ refusing offer (targets exclude (r.members room)) s) room'
    roomsOf := roomsOf_foldl_leaveAll _ r }

/-! ## Every sequence of calls -/

theorem describes_call (h : Describes r ms) (call : RoomCall μ σ) :
    Describes (r.call offer call) (Memberships.call offer ms call) := by
  cases call with
  | join room member => exact describes_join h room member
  | leave room member => exact describes_leave h room member
  | leaveAll member => exact describes_leaveAll h member
  | broadcast room exclude s =>
    show Describes (r.broadcast offer room exclude s).2.2 _
    rw [broadcast_eq, members_eq h.rooms]
    exact describes_foldl_leaveAll h _
  | close members =>
    cases members with
    | some members => exact describes_foldl_leaveAll h members
    | none =>
      -- everyone who is in a room has an entry
      have hall : ms.filter (fun p => p.2 ∉ r.joined.items.map Prod.fst) = [] := by
        rw [filter_eq_nil_iff]
        rintro ⟨room, member⟩ hp
        have hin := (h.joined.mem room member).mpr hp
        cases hget : r.joined.get member with
        | none =>
          rw [hget] at hin
          cases hin
        | some rooms =>
          simpa using ⟨rooms, Dict.mem_items.mpr hget⟩
      have hdescribes := describes_foldl_leaveAll h (r.joined.items.map Prod.fst)
      rw [hall] at hdescribes
      exact hdescribes

theorem describes_calls (calls : List (RoomCall μ σ)) :
    Describes (calls.foldl (RoomRegistry.call offer) ∅)
      (calls.foldl (Memberships.call offer) []) := by
  induction calls using List.reverseRecOn with
  | nil =>
    refine ⟨nodup_nil, fun _ => rfl, ?_⟩
    exact ⟨fun _ _ => iff_of_false nofun nofun, fun _ => nodup_nil, fun _ => rfl⟩
  | append_singleton calls call ih =>
    rw [foldl_append, foldl_append]
    exact describes_call ih call

/-- **The registry**, after any calls: its two indices agree and keep no empty entry, its room lists
    are the memberships in the order they began, and a broadcast does what it is to do. -/
theorem registry_of_calls (calls : List (RoomCall μ σ)) :
    Consistent (calls.foldl (RoomRegistry.call offer) ∅) ∧
      (∀ room, (calls.foldl (RoomRegistry.call offer) ∅).members room =
        membersOf (calls.foldl (Memberships.call offer) []) room) ∧
      ∀ room exclude s, Delivers offer (calls.foldl (RoomRegistry.call offer) ∅) room exclude s
        ((calls.foldl (RoomRegistry.call offer) ∅).broadcast offer room exclude s) := by
  have h : Describes (calls.foldl (RoomRegistry.call offer) ∅) _ := describes_calls calls
  exact ⟨h.consistent, members_eq h.rooms, delivers_broadcast h⟩

end

end RoomRegistry

end Ws
