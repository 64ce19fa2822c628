import BlackBull.Votor.Ballots
import BlackBull.Votor.EventHandler

/-!
# A node: the event handler and its own pool

The two are threads joined by two channels (`votor/src/votor.rs`, `consensus_pool_service.rs`): the
handler sends its votes to the pool, and the pool its events to the handler.
-/

namespace BlackBull

/-- The messages a handler has sent to the node's own pool, each with whether it was a refresh. -/
def Handler.ownVotes (log : List HandlerLog) : List (VoteMessage × Bool) :=
  log.filterMap fun
    | .ownVote msg isRefresh => some (msg, isRefresh)
    | _ => none

def VoteMessage.IsBy (stakes : ℕ → EpochStakes) (votePubkey : Pubkey) (m : VoteMessage) : Prop :=
  (m.entry stakes).map (·.voteAccountPubkey) = some votePubkey

instance (stakes : ℕ → EpochStakes) (votePubkey : Pubkey) (m : VoteMessage) :
    Decidable (m.IsBy stakes votePubkey) :=
  inferInstanceAs (Decidable (_ = _))

def ConsensusPool.holdsVote (p : ConsensusPool) (m : VoteMessage) : Bool :=
  match poolVotes m.vote.blockId (p.votePool m.vote.slot m.vote.getType) with
  | .ok votes => m ∈ votes
  | .error _ => false

structure Node where
  handler : Handler
  stopped : Option Stop := none
  pool : ConsensusPool
  taken : ℕ := 0
  events : List VotorEvent := []
  poolRoot : ℕ

inductive NodeOp
  | takeOwnVote (rootBank : RootBank)
  | receive (rootBank : RootBank) (message : ConsensusMessage)
  | maybePrune (rootSlot : ℕ)
  | takeEvent (env : HandlerEnv)
  | handle (event : VotorEvent) (env : HandlerEnv)

namespace Node

def new (identity : Pubkey) (root : ℕ) (bank : RootBank) : Node where
  handler := .new identity root
  pool := .newFromRootBank bank
  poolRoot := bank.slot

def nextOwnVote (n : Node) : Option (VoteMessage × Bool) := (Handler.ownVotes n.handler.log)[n.taken]?

def turn (e : VotorEvent × HandlerEnv) (n : Node) : Node :=
  if n.stopped.isSome then n
  else
    match Handler.turn e n.handler with
    | .ok _ h => { n with handler := h }
    | .error stop h => { n with handler := h, stopped := some stop }

section Stakes

variable [SignerStore] (stakes : ℕ → EpochStakes) (myVotePubkey : Pubkey)

def ingest (rootBank : RootBank) (message : ConsensusMessage) (n : Node) :
    Except VotorPanic (Node × List VotorEvent) := do
  let (pool, reply) ← n.pool.addMessage stakes rootBank myVotePubkey message
  let events := n.events ++ reply.events
  .ok ({ n with pool, events, poolRoot := rootBank.slot }, reply.events)

def step (n : Node) : NodeOp → Except VotorPanic (Node × List VotorEvent)
  | .takeOwnVote rootBank =>
    match n.nextOwnVote with
    | none => .ok (n, [])
    | some (msg, _) => ingest stakes myVotePubkey rootBank (.vote msg) { n with taken := n.taken + 1 }
  | .receive rootBank message => ingest stakes myVotePubkey rootBank message n
  | .maybePrune rootSlot =>
    .ok ({ n with pool := n.pool.maybePrune rootSlot, poolRoot := rootSlot }, [])
  | .takeEvent env =>
    match n.events with
    | [] => .ok (n, [])
    | e :: events => .ok (({ n with events } : Node).turn (e, env), [])
  | .handle e env => .ok (n.turn (e, env), [])

variable (identity : Pubkey)

/-- The identity stays, and the node's own votes are signed for its own vote account. -/
def OwnEnv (env : HandlerEnv) : Prop :=
  env.identity = identity ∧ ∀ vote rank, env.generateVoteTx vote = .consensusMessage rank →
    VoteMessage.IsBy stakes myVotePubkey ⟨vote, rank⟩

/-- Nobody else signs for the node's vote account, and only the pool tells of fallback votes. -/
def OwnOp : NodeOp → Prop
  | .receive _ message => ∀ m, message = .vote m → ¬ m.IsBy stakes myVotePubkey
  | .takeEvent env => OwnEnv stakes myVotePubkey identity env
  | .handle e env => OwnEnv stakes myVotePubkey identity env ∧ e.isFallback = false
  | _ => True

end Stakes

def RootGrows (n : Node) : NodeOp → Prop
  | .takeOwnVote rootBank | .receive rootBank _ => n.poolRoot ≤ rootBank.slot
  | .maybePrune rootSlot => n.poolRoot ≤ rootSlot
  | _ => True

instance (n : Node) : ∀ op, Decidable (n.RootGrows op)
  | .takeOwnVote rootBank | .receive rootBank _ =>
    inferInstanceAs (Decidable (n.poolRoot ≤ rootBank.slot))
  | .maybePrune rootSlot => inferInstanceAs (Decidable (n.poolRoot ≤ rootSlot))
  | .takeEvent _ | .handle _ _ => .isTrue trivial

end Node

end BlackBull
