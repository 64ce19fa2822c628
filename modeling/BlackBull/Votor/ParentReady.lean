import BlackBull.Lib.OrdMap
import BlackBull.Votor.Event

/-!
# The parent-ready tracker

`votor/src/consensus_pool/parent_ready_tracker.rs`.
-/

namespace BlackBull

structure ParentReadyStatus where
  skip : Bool := false
  notarFallbacks : List Block := []
  parentsReady : List Block := []
  deriving DecidableEq, Repr

structure ParentReadyTracker where
  slotStatuses : OrdMap ℕ ParentReadyStatus
  root : ℕ
  highestWithParentReady : ℕ

namespace ParentReadyTracker

variable (t : ParentReadyTracker)

def status (s : ℕ) : ParentReadyStatus :=
  (t.slotStatuses.get? s).getD {}

def setStatus (s : ℕ) (st : ParentReadyStatus) : ParentReadyTracker :=
  { t with slotStatuses := t.slotStatuses.insert s st }

/-- Creates a new tracker with the root block as implicitly notarized fallback. -/
def new (rootBlock : Block) : ParentReadyTracker where
  slotStatuses :=
    ((∅ : OrdMap ℕ ParentReadyStatus).insert rootBlock.1 { notarFallbacks := [rootBlock] }).insert
      (rootBlock.1 + 1) { parentsReady := [rootBlock] }
  root := rootBlock.1
  highestWithParentReady := rootBlock.1 + 1

/-- Only notify for parent ready on first leader slots. -/
def parentReadyEvents (s : ℕ) (block : Block) : List VotorEvent :=
  if s % numConsecutiveLeaderSlots = 0 then [.parentReady s block] else []

/-- One turn of the loop of `addNewNotarFallbackOrStronger`, at slot `s`. -/
def addParent (block : Block) (s : ℕ) (t : ParentReadyTracker) :
    ParentReadyTracker × List VotorEvent :=
  let st := t.status s
  if block ∈ st.parentsReady then (t.setStatus s st, [])
  else
    ({ t.setStatus s { st with parentsReady := st.parentsReady ++ [block] } with
        highestWithParentReady := max s t.highestWithParentReady },
      parentReadyEvents s block)

/-- Add `block` as a parent from slot `s` on, up to the first slot that is not skipped. -/
def addParentLoop (block : Block) :
    ℕ → ℕ → ParentReadyTracker → ParentReadyTracker × List VotorEvent
  | 0, _, t => (t, [])
  | fuel + 1, s, t =>
    let (t', ev) := addParent block s t
    if (t.status s).skip then
      let (t'', ev') := addParentLoop block fuel (s + 1) t'
      (t'', ev ++ ev')
    else (t', ev)

def addNewNotarFallbackOrStronger (block : Block) :
    Except VotorPanic (ParentReadyTracker × List VotorEvent) :=
  let slot := block.1
  if slot ≤ t.root then .ok (t, [])
  else
    let st := t.status slot
    if block ∈ st.notarFallbacks then .ok (t.setStatus slot st, [])
    else
      let st := { st with notarFallbacks := st.notarFallbacks ++ [block] }
      if st.notarFallbacks.length ≤ maxNotarFallbackBlocks then
        let t := t.setStatus slot st
        .ok (addParentLoop block (t.slotStatuses.entries.length + 1) (slot + 1) t)
      else .error .notarFallbackBlocks

def futureSlots (t : ParentReadyTracker) : ℕ → ℕ → List ℕ
  | 0, _ => []
  | fuel + 1, s => s :: if (t.status s).skip then futureSlots t fuel (s + 1) else []

def addPotentialParent (s : ℕ) (acc : ParentReadyTracker × List VotorEvent) (block : Block) :
    ParentReadyTracker × List VotorEvent :=
  let st := acc.1.status s
  if block ∈ st.parentsReady then acc
  else (acc.1.setStatus s { st with parentsReady := st.parentsReady ++ [block] },
    acc.2 ++ parentReadyEvents s block)

def addPotentialParents (parents : List Block) (acc : ParentReadyTracker × List VotorEvent)
    (s : ℕ) : ParentReadyTracker × List VotorEvent :=
  let acc := (acc.1.setStatus s (acc.1.status s), acc.2)
  let (t, ev) := parents.foldl (addPotentialParent s) acc
  ({ t with highestWithParentReady := max s t.highestWithParentReady }, ev)

def addNewSkip (slot : ℕ) : ParentReadyTracker × List VotorEvent :=
  if slot ≤ t.root then (t, [])
  else
    let t := t.setStatus slot { t.status slot with skip := true }
    let future := t.futureSlots (t.slotStatuses.entries.length + 1) (slot + 1)
    -- the parents of the slot before it, and that slot's own blocks
    match t.slotStatuses.get? (slot - 1) with
    | none => (t, [])
    | some st =>
      let parents := st.notarFallbacks ++ if st.skip then st.parentsReady else []
      if parents = [] then (t, [])
      else future.foldl (addPotentialParents parents) (t, [])

def setRoot (root : ℕ) : ParentReadyTracker :=
  { t with root, slotStatuses := t.slotStatuses.retain fun s _ => root ≤ s }

end ParentReadyTracker

inductive TrackerOp
  | addNewNotarFallbackOrStronger (block : Block)
  | addNewSkip (slot : ℕ)
  | setRoot (root : ℕ)
  deriving DecidableEq, Repr

def trackerStep (t : ParentReadyTracker) :
    TrackerOp → Except VotorPanic (ParentReadyTracker × List VotorEvent)
  | .addNewNotarFallbackOrStronger block => t.addNewNotarFallbackOrStronger block
  | .addNewSkip slot => .ok (t.addNewSkip slot)
  | .setRoot root => .ok (t.setRoot root, [])

def RootNonDecreasing (t : ParentReadyTracker) : TrackerOp → Prop
  | .setRoot root => t.root ≤ root
  | _ => True

instance (t : ParentReadyTracker) (op : TrackerOp) : Decidable (RootNonDecreasing t op) := by
  cases op <;> unfold RootNonDecreasing <;> infer_instance

/-- What the tracker is for: the certificates that arrived above the root of their time. -/
structure Accepted where
  root : ℕ
  notarized : List Block := []
  skipped : List ℕ := []

def Accepted.step (h : Accepted) : TrackerOp → Accepted
  | .addNewNotarFallbackOrStronger block =>
    if h.root < block.1 then { h with notarized := h.notarized ++ [block] } else h
  | .addNewSkip slot => if h.root < slot then { h with skipped := h.skipped ++ [slot] } else h
  | .setRoot root => { h with root }

/-- The certificates a sequence of calls had accepted, from a given root block on. -/
def accepted (rootBlock : Block) (ops : List TrackerOp) : Accepted :=
  ops.foldl Accepted.step { root := rootBlock.1 }

/-- The parent-ready condition: `b` is the root block or notarized-fallback or stronger, and every
slot strictly between it and `s` is skipped. -/
def Accepted.ParentReady (rootBlock : Block) (h : Accepted) (s : ℕ) (b : Block) : Prop :=
  (b = rootBlock ∨ b ∈ h.notarized) ∧ b.1 < s ∧ ∀ k, b.1 < k → k < s → k ∈ h.skipped

instance (rootBlock : Block) (h : Accepted) (s : ℕ) (b : Block) :
    Decidable (h.ParentReady rootBlock s b) :=
  decidable_of_iff ((b = rootBlock ∨ b ∈ h.notarized) ∧ b.1 < s
      ∧ ∀ k ∈ List.range s, b.1 < k → k ∈ h.skipped) <| by
    simp only [Accepted.ParentReady, List.mem_range]
    exact and_congr Iff.rfl (and_congr Iff.rfl (forall_congr' fun _ => imp.swap))

end BlackBull
