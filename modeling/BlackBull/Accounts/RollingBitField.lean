import BlackBull.Lib.Run

/-!
# Rolling bit fields

The set of slots of `accounts-db/src/rolling_bit_field.rs`: keys from `min` up are bits at their
remainder modulo `maxWidth`, keys below are in `excess`.
-/

namespace BlackBull

inductive BitFieldPanic
  | width
  | excess
  | range
  deriving DecidableEq, Repr

structure RollingBitField where
  maxWidth : ℕ
  min : ℕ
  maxExclusive : ℕ
  bits : ℕ → Bool
  count : ℕ
  excess : List ℕ

namespace RollingBitField

def fresh (maxWidth : ℕ) : RollingBitField := ⟨maxWidth, 0, 0, fun _ => false, 0, []⟩

def new (maxWidth : ℕ) : Except BitFieldPanic RollingBitField :=
  if 0 < maxWidth ∧ 2 ^ maxWidth.log2 = maxWidth then .ok (fresh maxWidth) else .error .width

variable (s : RollingBitField)

def getAddress (key : ℕ) : ℕ := key % s.maxWidth

def allItemsInExcess : Bool := s.excess.length = s.count

def len : ℕ := s.count

def isEmpty : Bool := s.len = 0

def containsAssumeInRange (key : ℕ) : Bool := s.bits (s.getAddress key)

def range : List ℕ := List.range' s.min (s.maxExclusive - s.min)

def minItem : Option ℕ :=
  if s.isEmpty then none
  else if s.excess = [] then some s.min
  else if s.allItemsInExcess then s.excess.min?
  else some (Nat.min s.min (s.excess.min?.getD (2 ^ 64 - 1)))

/-- After removing `key`, move `min` to the next bit that is set, or to the end of the range. -/
def purge (key : ℕ) : RollingBitField :=
  if 0 < s.count ∧ ¬ s.allItemsInExcess then
    if key = s.min then
      match s.range.tail.find? s.containsAssumeInRange with
      | some next => { s with min := next }
      | none => s
    else s
  else { s with min := s.maxExclusive }

def moveMin : RollingBitField :=
  { s with
    excess := s.excess ++ [s.min]
    bits := Function.update s.bits (s.getAddress s.min) false }

lemma mem_range {s : RollingBitField} {key : ℕ} :
    key ∈ s.range ↔ s.min ≤ key ∧ key < s.maxExclusive := by
  rw [range, List.mem_range'_1]
  omega

lemma mem_range_tail {s : RollingBitField} {key : ℕ} :
    key ∈ s.range.tail ↔ s.min < key ∧ key < s.maxExclusive := by
  rw [range, List.tail_range', List.mem_range'_1]
  omega

lemma purge_cases (s : RollingBitField) (key : ℕ) :
    s.purge key = s ∨ ∃ next, (next = s.maxExclusive ∨ s.min < next ∧ next < s.maxExclusive)
      ∧ s.purge key = { s with min := next } := by
  unfold purge
  split_ifs
  · split
    · rename_i next hnext
      exact .inr ⟨next, .inr (mem_range_tail.1 (List.mem_of_find?_eq_some hnext)), rfl⟩
    · exact .inl rfl
  · exact .inl rfl
  · exact .inr ⟨_, .inl rfl, rfl⟩

/-- How far `min` is from the end of the range, and whether it has been moved. -/
def distance : ℕ :=
  2 * ((s.maxExclusive - s.min) + (s.min - s.maxExclusive)) + if s.min ∈ s.excess then 0 else 1

/-- `min` moves towards the end of the range, or it stays and is in the excess set. -/
lemma distance_moveMin {s : RollingBitField} (h : s.min ∉ s.excess) (key : ℕ) :
    (s.moveMin.purge key).distance < s.distance := by
  have hin : s.min ∈ s.moveMin.excess := List.mem_concat_self
  have hs : s.distance = 2 * ((s.maxExclusive - s.min) + (s.min - s.maxExclusive)) + 1 := by
    rw [distance, if_neg h]
  have hdist : ∀ t : RollingBitField, t.min ∈ t.excess →
      t.distance = 2 * ((t.maxExclusive - t.min) + (t.min - t.maxExclusive)) := fun t ht => by
    rw [distance, if_pos ht, Nat.add_zero]
  rcases purge_cases s.moveMin key with heq | ⟨next, hnext, heq⟩ <;> rw [heq, hs]
  · rw [hdist _ hin]
    exact Nat.lt_succ_self _
  · change next = s.maxExclusive ∨ s.min < next ∧ next < s.maxExclusive at hnext
    by_cases hsame : next = s.min
    · rw [hdist _ (by rw [hsame]; exact hin)]
      show 2 * ((s.maxExclusive - next) + (next - s.maxExclusive)) < _
      omega
    · show 2 * ((s.maxExclusive - next) + (next - s.maxExclusive)) + _ < _
      split_ifs <;> omega

/-- Move the least items to the excess set until `key` fits, and tell whether none is left. -/
def makeRoom (s : RollingBitField) (key : ℕ) : Except BitFieldPanic (RollingBitField × Bool) :=
  if key + 1 - s.min ≤ s.maxWidth then .ok (s, false)
  else if s.min ∈ s.excess then .error .excess
  else
    let s' := s.moveMin.purge s.min
    if s'.allItemsInExcess then .ok (s', true) else s'.makeRoom key
termination_by s.distance
decreasing_by exact distance_moveMin ‹_› _

def room (key : ℕ) : Except BitFieldPanic (RollingBitField × Bool) :=
  if s.count = 0 ∨ s.allItemsInExcess then .ok (s, true)
  else if key < s.maxExclusive then .ok (s, false)
  else s.makeRoom key

def setBit (key : ℕ) (bitsEmpty : Bool) : Except BitFieldPanic RollingBitField :=
  if s.containsAssumeInRange key then .ok s
  else
    let bits := Function.update s.bits (s.getAddress key) true
    if bitsEmpty then .ok { s with bits, min := key, maxExclusive := key + 1, count := s.count + 1 }
    else
      let min := Nat.min s.min key
      let maxExclusive := Nat.max s.maxExclusive (key + 1)
      if (min + s.maxWidth) % 2 ^ 64 < maxExclusive then .error .range
      else .ok { s with bits, min, maxExclusive, count := s.count + 1 }

def insert (key : ℕ) : Except BitFieldPanic RollingBitField :=
  if ¬ (s.count = 0 ∨ s.allItemsInExcess) ∧ key < s.min then
    if key ∈ s.excess then .ok s
    else .ok { s with excess := s.excess ++ [key], count := s.count + 1 }
  else do
    let (s, bitsEmpty) ← s.room key
    s.setBit key bitsEmpty

def remove (key : ℕ) : RollingBitField × Bool :=
  if s.min ≤ key then
    if key < s.maxExclusive then
      if s.containsAssumeInRange key then
        (purge { s with
          count := s.count - 1
          bits := Function.update s.bits (s.getAddress key) false } key, true)
      else (s, false)
    else (s, false)
  else if key ∈ s.excess then ({ s with excess := s.excess.erase key, count := s.count - 1 }, true)
  else (s, false)

def contains (key : ℕ) : Bool :=
  if key < s.maxExclusive then
    if s.min ≤ key then s.containsAssumeInRange key else s.excess.contains key
  else false

/-- The loop of `getPrior`, which looks at a slot before it moves down. -/
def scanDown (min : ℕ) : ℕ → Option ℕ
  | 0 => if s.contains 0 then some 0 else none
  | slot + 1 =>
    if s.contains (slot + 1) then some (slot + 1)
    else if slot = 0 ∨ slot < min then none
    else scanDown min slot

def getPrior (maxSlotExclusive : ℕ) : Option ℕ :=
  s.minItem.bind fun min => s.scanDown min (maxSlotExclusive - 1)

def getAll : List ℕ := s.excess ++ s.range.filter s.containsAssumeInRange

def getAllLessThan (maxSlotExclusive : ℕ) : List ℕ :=
  s.excess.filter (· < maxSlotExclusive)
    ++ (s.range.takeWhile (· < maxSlotExclusive)).filter s.containsAssumeInRange

def eq (s t : RollingBitField) : Bool := s.len = t.len && s.getAll.all t.contains

inductive Op
  | insert (key : ℕ)
  | remove (key : ℕ)
  deriving DecidableEq, Repr

def Op.key : Op → ℕ
  | .insert key | .remove key => key

def Op.inserted : Op → Option ℕ
  | .insert key => some key
  | .remove _ => none

def step : Op → Except BitFieldPanic (RollingBitField × List Bool)
  | .insert key => (s.insert key).map (·, [])
  | .remove key => .ok ((s.remove key).1, [(s.remove key).2])

def setStep (A : Finset ℕ) : Op → Finset ℕ × List Bool
  | .insert key => (Insert.insert key A, [])
  | .remove key => (A.erase key, [decide (key ∈ A)])

def setRun (ops : List Op) : Finset ℕ × List Bool :=
  ops.foldl (fun r op => ((setStep r.1 op).1, r.2 ++ (setStep r.1 op).2)) (∅, [])

structure Agrees (s : RollingBitField) (A : Finset ℕ) : Prop where
  contains : ∀ key, s.contains key = true ↔ key ∈ A
  len : s.len = A.card
  isEmpty : s.isEmpty = true ↔ A = ∅
  minItem : ∀ m, s.minItem = some m ↔ IsLeast (A : Set ℕ) m
  getAll : s.getAll.Nodup ∧ s.getAll.toFinset = A
  getAllLessThan : ∀ m, (s.getAllLessThan m).Nodup
    ∧ (s.getAllLessThan m).toFinset = A.filter (· < m)

end RollingBitField

end BlackBull
