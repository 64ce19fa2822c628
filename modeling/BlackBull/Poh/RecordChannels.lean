import BlackBull.Lib.Run

/-!
# The record channel

`poh/src/record_channels.rs`.
-/

namespace BlackBull.RecordChannel

/-- A step that cannot be taken now, or an assertion that fails. -/
inductive Stop
  | blocked
  | panic
  deriving DecidableEq, Repr

def allowedInsertionsBits : ℕ := 10

def bankIdBits : ℕ := 64 - allowedInsertionsBits

def disabledBankId : ℕ := 2 ^ bankIdBits - 1

def maxBankId : ℕ := disabledBankId - 1

def maxAllowedInsertions : ℕ := 2 ^ allowedInsertionsBits - 1

def capacity : ℕ := maxAllowedInsertions

def encodedValue (bankId allowedInsertions : ℕ) : Except Stop ℕ :=
  if bankId ≤ disabledBankId ∧ allowedInsertions ≤ maxAllowedInsertions then
    .ok (bankId <<< allowedInsertionsBits ||| allowedInsertions)
  else .error .panic

def bankId (value : ℕ) : ℕ := (value >>> allowedInsertionsBits) &&& disabledBankId

def allowedInsertions (value : ℕ) : ℕ := value &&& maxAllowedInsertions

def shutdownValue : ℕ := disabledBankId <<< allowedInsertionsBits

/-- A record; of each batch only the number of its transactions is kept. -/
structure Record where
  bankId : ℕ
  transactionBatches : List ℕ
  deriving DecidableEq, Repr

def Record.numBatches (r : Record) : ℕ := r.transactionBatches.length

def Record.numTransactions (r : Record) : ℕ := r.transactionBatches.sum

inductive SenderPc
  | idle
  /-- at the head of the loop -/
  | lock (r : Record)
  | load (r : Record)
  /-- about to count itself as active, with the word that it loaded -/
  | count (r : Record) (current : ℕ)
  | exchange (r : Record) (current : ℕ)
  /-- the exchange failed -/
  | retry (r : Record)
  | send (r : Record)
  | sent (r : Record)
  | finish (r : Record)
  deriving DecidableEq, Repr

/-- The batches that a thread has reserved room for and not yet sent. -/
def SenderPc.reserved : SenderPc → ℕ
  | .send r => r.numBatches
  | _ => 0

structure Sent (T : Type) where
  thread : T
  call : ℕ
  record : Record
  deriving DecidableEq

inductive Caller
  | tryRecv
  | recvTimeout
  | drain
  deriving DecidableEq, Repr

inductive ReceiverPc (T : Type)
  | idle
  /-- the first look into the channel -/
  | receive (caller : Caller)
  | checkSenders (caller : Caller)
  | receiveAgain (caller : Caller)
  /-- about to give the batches of a record back -/
  | credit (caller : Caller) (e : Sent T)
  /-- between two items of a drain -/
  | between
  /-- in `recv_timeout` -/
  | wait
  | restartLock (bank : ℕ)
  | restartStore (bank : ℕ)
  | restartUnlock

inductive Phase
  | opened
  | shut
  /-- shut down, and a drain has ended since -/
  | drained
  deriving DecidableEq, Repr

/-- A call of `try_send` that returned `Ok`, `epoch` being how many records had been received before
the last restart. -/
structure SendResult (T : Type) where
  sent : Sent T
  startingIndex : Option ℕ
  epoch : ℕ
  deriving DecidableEq

structure State (T : Type) where
  word : ℕ
  activeSenders : ℕ
  queue : List (Sent T)
  transactionIndex : ℕ
  /-- who holds the lock of the index, `none` standing for the receiver -/
  lock : Option (Option T)
  senders : T → SenderPc
  receiver : ReceiverPc T
  calls : T → ℕ
  results : List (SendResult T)
  received : List (Sent T)
  phase : Phase
  /-- the bank of the last restart, and how many records were received before it -/
  bank : ℕ
  epoch : ℕ

variable {T : Type} [DecidableEq T]

def init : State T where
  word := shutdownValue
  activeSenders := 0
  queue := []
  transactionIndex := 0
  lock := none
  senders := fun _ => .idle
  receiver := .idle
  calls := fun _ => 0
  results := []
  received := []
  phase := .drained
  bank := 0
  epoch := 0

namespace State

def setSender (s : State T) (t : T) (pc : SenderPc) : State T :=
  { s with senders := Function.update s.senders t pc }

def endCall (s : State T) (t : T) : State T :=
  { s with
    senders := Function.update s.senders t .idle
    calls := Function.update s.calls t (s.calls t + 1)
    lock := none }

/-- The record is put into the channel. -/
def push (s : State T) (t : T) (r : Record) : State T :=
  { s.setSender t (.sent r) with queue := s.queue ++ [⟨t, s.calls t, r⟩] }

/-- The call returns `Ok`, with the index where the record's transactions start. -/
def finish (tracking : Bool) (s : State T) (t : T) (r : Record) : State T :=
  { s.endCall t with
    results := s.results
      ++ [⟨⟨t, s.calls t, r⟩, if tracking then some s.transactionIndex else none, s.epoch⟩]
    transactionIndex := s.transactionIndex + if tracking then r.numTransactions else 0 }

end State

def senderStep (tracking : Bool) (s : State T) (t : T) : Except Stop (State T) :=
  match s.senders t with
  | .idle => .error .blocked
  | .lock r =>
    if tracking then
      if s.lock = none then .ok { s.setSender t (.load r) with lock := some (some t) }
      else .error .blocked
    else .ok (s.setSender t (.load r))
  | .load r =>
    if bankId s.word = disabledBankId then .ok (s.endCall t)
    else if bankId s.word ≠ r.bankId then .ok (s.endCall t)
    else if allowedInsertions s.word < r.numBatches then .ok (s.endCall t)
    else .ok (s.setSender t (.count r s.word))
  | .count r current =>
    .ok { s.setSender t (.exchange r current) with activeSenders := s.activeSenders + 1 }
  | .exchange r current => do
    let new ← encodedValue (bankId current)
      ((allowedInsertions current + 2 ^ 64 - r.numBatches) % 2 ^ 64)
    if s.word = current then pure { s.setSender t (.send r) with word := new }
    else pure (s.setSender t (.retry r))
  | .retry r =>
    .ok { s.setSender t (.lock r) with
          activeSenders := s.activeSenders - 1
          lock := none }
  | .send r =>
    if s.queue.length < capacity then .ok (s.push t r) else .error .panic
  | .sent r =>
    .ok { s.setSender t (.finish r) with activeSenders := s.activeSenders - 1 }
  | .finish r => .ok (s.finish tracking t r)

def Caller.next : Caller → ReceiverPc T
  | .drain => .between
  | _ => .idle

namespace State

/-- `try_recv` returns `Empty`; for a drain that is its end. -/
def empty (s : State T) (caller : Caller) : State T :=
  { s with
    receiver := .idle
    phase := if caller = .drain ∧ s.phase = .shut then .drained else s.phase }

/-- The batches of a received record are given back, whatever the word says now. -/
def credit (s : State T) (caller : Caller) (e : Sent T) : State T :=
  { s with
    word := (s.word + e.record.numBatches) % 2 ^ 64
    received := s.received ++ [e]
    receiver := caller.next }

def shutdown (s : State T) : State T :=
  { s with
    word := shutdownValue
    phase := if s.phase = .drained then .drained else .shut }

/-- The word of a restart is stored. -/
def reopen (tracking : Bool) (s : State T) (bank word : ℕ) : State T :=
  { s with
    word
    phase := .opened
    bank
    epoch := s.received.length
    receiver := if tracking then .restartUnlock else .idle }

end State

def receiverStep (tracking : Bool) (s : State T) : Except Stop (State T) :=
  match s.receiver with
  | .idle => .error .blocked
  | .receive caller =>
    match s.queue with
    | e :: queue => .ok { s with queue, receiver := .credit caller e }
    | [] => .ok { s with receiver := .checkSenders caller }
  | .checkSenders caller =>
    if s.activeSenders ≠ 0 then .ok { s with receiver := .receive caller }
    else .ok { s with receiver := .receiveAgain caller }
  | .receiveAgain caller =>
    match s.queue with
    | e :: queue => .ok { s with queue, receiver := .credit caller e }
    | [] => .ok (s.empty caller)
  | .credit caller e => .ok (s.credit caller e)
  | .between => .ok { s with receiver := .receive .drain }
  | .wait =>
    match s.queue with
    | e :: queue => .ok { s with queue, receiver := .credit .recvTimeout e }
    | [] => .error .blocked
  | .restartLock bank =>
    if tracking then
      if s.lock = none then
        .ok { s with lock := some none, transactionIndex := 0, receiver := .restartStore bank }
      else .error .blocked
    else .ok { s with receiver := .restartStore bank }
  | .restartStore bank => do
    let word ← encodedValue bank capacity
    pure (s.reopen tracking bank word)
  | .restartUnlock => .ok { s with lock := none, receiver := .idle }

inductive Action (T : Type)
  | call (t : T) (r : Record)
  | sender (t : T)
  | tryRecv
  | recvTimeout
  | drain
  | shutdown
  | restart (bank : ℕ)
  | receiver
  | timeout
  | leaveDrain

def State.whenIdle (s : State T) (x : Except Stop (State T)) : Except Stop (State T) :=
  match s.receiver with
  | .idle => x
  | _ => .error .blocked

/-- The channel is restarted only after a drain that followed the shutdown has ended. -/
def step (tracking : Bool) (s : State T) : Action T → Except Stop (State T)
  | .call t r =>
    match s.senders t with
    | .idle => if r.numTransactions = 0 then .error .panic else .ok (s.setSender t (.lock r))
    | _ => .error .blocked
  | .sender t => senderStep tracking s t
  | .tryRecv => s.whenIdle (.ok { s with receiver := .receive .tryRecv })
  | .recvTimeout => s.whenIdle (.ok { s with receiver := .wait })
  | .drain => s.whenIdle (.ok { s with receiver := .receive .drain })
  | .shutdown => s.whenIdle (.ok s.shutdown)
  | .restart bank => s.whenIdle (
      if s.phase ≠ .drained then .error .blocked
      else if ¬ bank ≤ maxBankId then .error .panic
      else if s.queue ≠ [] then .error .panic
      else .ok { s with receiver := .restartLock bank })
  | .receiver => receiverStep tracking s
  | .timeout =>
    match s.receiver with
    | .wait => .ok { s with receiver := .idle }
    | _ => .error .blocked
  | .leaveDrain =>
    match s.receiver with
    | .between => .ok { s with receiver := .idle }
    | _ => .error .blocked

def interleave (tracking : Bool) (s : State T) (as : List (Action T)) : Except Stop (State T) :=
  as.foldlM (step tracking) s

def numTransactions (es : List (Sent T)) : ℕ := (es.map fun e => e.record.numTransactions).sum

/-- The starting index is the position of the transactions among those that were sent since the
restart. -/
def SendResult.Positioned (log : List (Sent T)) (res : SendResult T) : Prop :=
  ∃ before after, log = before ++ res.sent :: after ∧ res.epoch ≤ before.length
    ∧ res.startingIndex = some (numTransactions (before.drop res.epoch))

namespace State

def taken (s : State T) : List (Sent T) :=
  match s.receiver with
  | .credit _ e => [e]
  | _ => []

def pending (s : State T) : List (Sent T) := s.taken ++ s.queue

def log (s : State T) : List (Sent T) := s.received ++ s.pending

/-- The batches for which room has been reserved, and which have not been received. -/
def reserved [Fintype T] (s : State T) : ℕ :=
  (∑ t, (s.senders t).reserved) + (s.pending.map fun e => e.record.numBatches).sum

def phaseBank (s : State T) : ℕ :=
  match s.phase with
  | .opened => s.bank
  | _ => disabledBankId

end State

end BlackBull.RecordChannel
