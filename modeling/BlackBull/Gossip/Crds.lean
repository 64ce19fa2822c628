import Mathlib

/-!
# The gossip table

`gossip/src/crds.rs`: every node keeps the latest value of each label.
-/

namespace BlackBull

namespace Gossip

abbrev Pubkey := ℕ

@[ext]
structure ContactInfo where
  pubkey : Pubkey
  outset : ℕ
  wallclock : ℕ
  body : ℕ
  deriving DecidableEq, Repr

@[ext]
structure CrdsRecord where
  sender : Pubkey
  wallclock : ℕ
  body : ℕ
  deriving DecidableEq, Repr

inductive CrdsData
  | lowestSlot (record : CrdsRecord)
  | vote (index : ℕ) (record : CrdsRecord)
  | epochSlots (index : ℕ) (record : CrdsRecord)
  | duplicateShred (index : ℕ) (record : CrdsRecord)
  | snapshotHashes (record : CrdsRecord)
  | contactInfo (node : ContactInfo)
  | restartLastVotedForkSlots (record : CrdsRecord)
  | restartHeaviestFork (record : CrdsRecord)
  deriving DecidableEq, Repr

inductive CrdsValueLabel
  | vote (index : ℕ) (pubkey : Pubkey)
  | lowestSlot (pubkey : Pubkey)
  | epochSlots (index : ℕ) (pubkey : Pubkey)
  | duplicateShred (index : ℕ) (pubkey : Pubkey)
  | snapshotHashes (pubkey : Pubkey)
  | contactInfo (pubkey : Pubkey)
  | restartLastVotedForkSlots (pubkey : Pubkey)
  | restartHeaviestFork (pubkey : Pubkey)
  deriving DecidableEq, Repr

structure CrdsValue where
  signature : ℕ
  data : CrdsData
  deriving DecidableEq, Repr

namespace CrdsValue

def wallclock (v : CrdsValue) : ℕ :=
  match v.data with
  | .lowestSlot r | .vote _ r | .epochSlots _ r | .duplicateShred _ r | .snapshotHashes r
  | .restartLastVotedForkSlots r | .restartHeaviestFork r => r.wallclock
  | .contactInfo node => node.wallclock

def label (v : CrdsValue) : CrdsValueLabel :=
  match v.data with
  | .vote index r => .vote index r.sender
  | .lowestSlot r => .lowestSlot r.sender
  | .epochSlots index r => .epochSlots index r.sender
  | .duplicateShred index r => .duplicateShred index r.sender
  | .snapshotHashes r => .snapshotHashes r.sender
  | .contactInfo node => .contactInfo node.pubkey
  | .restartLastVotedForkSlots r => .restartLastVotedForkSlots r.sender
  | .restartHeaviestFork r => .restartHeaviestFork r.sender

end CrdsValue

inductive GossipRoute
  | localMessage
  | pullRequest
  | pullResponse
  | pushMessage (sender : Pubkey)
  deriving DecidableEq, Repr

structure VersionedCrdsValue where
  ordinal : ℕ
  value : CrdsValue
  localTimestamp : ℕ
  numPushRecv : Option ℕ
  deriving DecidableEq, Repr

inductive CrdsError
  | duplicatePush (numDups : ℕ)
  | insertFailed
  deriving DecidableEq, Repr

/-- None where the contact infos have different keys, or the same outset and wallclock. -/
def ContactInfo.overrides (c other : ContactInfo) : Option Bool :=
  if c.pubkey ≠ other.pubkey then none
  else
    match compareLex (compareOn ContactInfo.outset) (compareOn ContactInfo.wallclock) c other with
    | .lt => some false
    | .gt => some true
    | .eq => none

def VersionedCrdsValue.new (value : CrdsValue) (cursor localTimestamp : ℕ) (route : GossipRoute) :
    VersionedCrdsValue :=
  { ordinal := cursor
    value
    localTimestamp
    numPushRecv :=
      match route with
      | .localMessage | .pullRequest => none
      | .pullResponse => some 0
      | .pushMessage _ => some 1 }

section Table

variable {H : Type} [LinearOrder H] (hash : CrdsValue → H)

def overridesByWallclock (value other : CrdsValue) : Bool :=
  match compare value.wallclock other.wallclock with
  | .lt => false
  | .gt => true
  | .eq => hash other < hash value

def overrides (value : CrdsValue) (other : VersionedCrdsValue) : Bool :=
  match value.data, other.value.data with
  | .contactInfo node, .contactInfo node' =>
    (node.overrides node').getD (overridesByWallclock hash value other.value)
  | _, _ => overridesByWallclock hash value other.value

variable (H) in
structure Crds where
  table : CrdsValueLabel → Option VersionedCrdsValue
  cursor : ℕ
  purged : List (H × ℕ)

variable (H) in
def Crds.empty : Crds H := ⟨fun _ => none, 0, []⟩

def Crds.insert (s : Crds H) (value : CrdsValue) (now : ℕ) (route : GossipRoute) :
    Crds H × Except CrdsError Unit :=
  let label := value.label
  let versioned := VersionedCrdsValue.new value s.cursor now route
  match s.table label with
  | none =>
    ({ s with
        table := Function.update s.table label (some versioned)
        cursor := max s.cursor (versioned.ordinal + 1) }, .ok ())
  | some entry =>
    if overrides hash value entry then
      ({ table := Function.update s.table label (some versioned)
         cursor := max s.cursor (versioned.ordinal + 1)
         purged := s.purged ++ [(hash entry.value, now)] }, .ok ())
    else if hash entry.value ≠ hash value then
      ({ s with purged := s.purged ++ [(hash value, now)] }, .error .insertFailed)
    else
      match route with
      | .pushMessage _ =>
        let numPushDups := entry.numPushRecv.getD 0
        -- a byte that saturates
        let entry := { entry with numPushRecv := some (min (numPushDups + 1) 255) }
        ({ s with table := Function.update s.table label (some entry) },
          .error (.duplicatePush numPushDups))
      | _ => (s, .error .insertFailed)

structure Arrival where
  value : CrdsValue
  now : ℕ
  route : GossipRoute
  deriving DecidableEq, Repr

def Crds.insertAll (s : Crds H) (arrivals : List Arrival) : Crds H :=
  arrivals.foldl (fun s a => (s.insert hash a.value a.now a.route).1) s

end Table

end Gossip

end BlackBull
