import FastapiBoilerplate.Lib.Dict
import FastapiBoilerplate.Lib.Text

/-!
# Rooms

`src/ws/rooms.py`: the members of each room in the order they joined, and the rooms of each member.
Members are whatever can be told apart. A member is offered a payload by a function that may change
the state the members live in; a member that refuses is taken out of every room.
-/

namespace Ws

open Lib

def maxRoomNameLength : ℕ := 64

def isRoomStart (c : CodePoint) : Bool :=
  (0x61 ≤ c.val && c.val ≤ 0x7a) || (0x30 ≤ c.val && c.val ≤ 0x39)

def isRoomPoint (c : CodePoint) : Bool :=
  isRoomStart c || c.val = 0x2e || c.val = 0x5f || c.val = 0x2d

/-- `ROOM_NAME_PATTERN.match(name)`. The `$` matches before a final line feed as well. -/
def matchesRoomName (name : Text) : Bool :=
  match if endsWith name [0x0a] then name.dropLast else name with
  | [] => false
  | c :: rest => isRoomStart c && rest.all isRoomPoint && rest.length ≤ 63

/-- `validate_room_name`; `InvalidRoomName` by its text. -/
def validateRoomName (name : Text) : Except Text Text :=
  if name = [] then .error (lit "Room name must not be empty.")
  else if maxRoomNameLength < name.length then
    .error (lit "Room name may be at most 64 characters, got " ++ decimal name.length ++ lit ".")
  else if !matchesRoomName name then
    .error (lit "Room name may contain only lowercase letters, digits, '.', '-' and '_', " ++
      lit "and must start with a letter or digit.")
  else .ok name

theorem eq_of_validateRoomName {name room : Text} (h : validateRoomName name = .ok room) :
    room = name := by
  unfold validateRoomName at h
  repeat' split at h
  all_goals cases h
  rfl

/-- A set of rooms is a list of them. -/
structure RoomRegistry (μ : Type) where
  rooms : Dict Text (List μ)
  joined : Dict μ (List Text)

namespace RoomRegistry

variable {μ : Type} [DecidableEq μ]

instance : EmptyCollection (RoomRegistry μ) := ⟨⟨∅, ∅⟩⟩

def memberCount (r : RoomRegistry μ) (room : Text) : ℕ := ((r.rooms.get room).getD []).length

def roomsOf (r : RoomRegistry μ) (member : μ) : List Text := (r.joined.get member).getD []

def contains (r : RoomRegistry μ) (room : Text) (member : μ) : Bool := room ∈ r.roomsOf member

/-- `join`: the room's member count, and the registry. -/
def join (r : RoomRegistry μ) (room : Text) (member : μ) : ℕ × RoomRegistry μ :=
  let r :=
    if room ∈ r.roomsOf member then r
    else
      { rooms := r.rooms.set room ((r.rooms.get room).getD [] ++ [member])
        joined := r.joined.set member (r.roomsOf member ++ [room]) }
  (r.memberCount room, r)

theorem join_le (r : RoomRegistry μ) (room : Text) (member : μ) :
    (r.join room member).1 ≤ r.memberCount room + 1 := by
  unfold join
  dsimp only
  split
  · exact Nat.le_succ _
  · rw [memberCount, Dict.get_set_self, Option.getD_some, List.length_append]
    exact Nat.le_refl _

/-- `_remove_from_room`. -/
def removeFromRoom (r : RoomRegistry μ) (room : Text) (member : μ) : RoomRegistry μ :=
  match r.rooms.get room with
  | none => r
  | some members =>
    let members := members.erase member
    { r with rooms := if members = [] then r.rooms.erase room else r.rooms.set room members }

/-- `leave`: whether the member was in the room, and the registry. -/
def leave (r : RoomRegistry μ) (room : Text) (member : μ) : Bool × RoomRegistry μ :=
  if room ∈ r.roomsOf member then
    let joined := (r.roomsOf member).erase room
    let r := { r with
      joined := if joined = [] then r.joined.erase member else r.joined.set member joined }
    (true, r.removeFromRoom room member)
  else (false, r)

/-- `leave_all`: the rooms the member was in, and the registry. -/
def leaveAll (r : RoomRegistry μ) (member : μ) : List Text × RoomRegistry μ :=
  let rooms := r.roomsOf member
  (rooms, rooms.foldl (fun r room => r.removeFromRoom room member)
    { r with joined := r.joined.erase member })

section
variable {σ : Type} (offer : σ → μ → Bool × σ)

/-- The loop of `broadcast`, over the members there were: how many took it, the members' state and
    the registry. -/
def offerAll (exclude : Option μ) : List μ → σ → RoomRegistry μ → ℕ × σ × RoomRegistry μ
  | [], s, r => (0, s, r)
  | member :: members, s, r =>
    if some member = exclude then offerAll exclude members s r
    else
      let (took, s) := offer s member
      if took then
        let (delivered, s, r) := offerAll exclude members s r
        (delivered + 1, s, r)
      else offerAll exclude members s (r.leaveAll member).2

/-- `broadcast`. -/
def broadcast (r : RoomRegistry μ) (room : Text) (exclude : Option μ) (s : σ) :
    ℕ × σ × RoomRegistry μ :=
  offerAll offer exclude ((r.rooms.get room).getD []) s r

end

/-- `close`: how many it was told to remove, or how many there were, and the registry. -/
def close (r : RoomRegistry μ) (members : Option (List μ)) : ℕ × RoomRegistry μ :=
  let targets := members.getD (r.joined.items.map Prod.fst)
  (targets.length, targets.foldl (fun r member => (r.leaveAll member).2) r)

end RoomRegistry

end Ws
