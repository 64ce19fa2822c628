import Mathlib

/-!
# Pieces of a byte string

`At bytes o w` says that `w` stands at offset `o` of a byte string.
-/

namespace BlackBull

open List

variable {α : Type} {bytes w w' : List α} {o n : ℕ}

def At (bytes : List α) (o : ℕ) (w : List α) : Prop :=
  (bytes.drop o).take w.length = w ∧ o + w.length ≤ bytes.length

theorem At.le (h : At bytes o w) : o + w.length ≤ bytes.length := h.2

theorem at_nil : At bytes o [] ↔ o ≤ bytes.length := by simp [At]

theorem at_append : At bytes o (w ++ w') ↔ At bytes o w ∧ At bytes (o + w.length) w' := by
  unfold At
  rw [length_append, take_add, drop_drop]
  constructor
  · rintro ⟨h, hle⟩
    have hlen : ((bytes.drop o).take w.length).length = w.length := by
      rw [length_take, length_drop]
      omega
    obtain ⟨h1, h2⟩ := append_inj h hlen
    exact ⟨⟨h1, by omega⟩, h2, by omega⟩
  · rintro ⟨⟨h1, -⟩, h2, hle⟩
    exact ⟨by rw [h1, h2], by omega⟩

theorem at_singleton {a : α} : At bytes o [a] ↔ bytes[o]? = some a := by
  constructor
  · rintro ⟨h, hle⟩
    have hlt : o < bytes.length := hle
    rw [drop_eq_getElem_cons hlt] at h
    rw [getElem?_eq_getElem hlt, (cons.inj h).1]
  · intro h
    obtain ⟨hlt, rfl⟩ := List.getElem?_eq_some_iff.1 h
    exact ⟨by rw [drop_eq_getElem_cons hlt]; rfl, hlt⟩

theorem at_cons {a : α} : At bytes o (a :: w) ↔ bytes[o]? = some a ∧ At bytes (o + 1) w := by
  rw [← singleton_append, at_append, at_singleton]
  rfl

theorem exists_at (h : o + n ≤ bytes.length) : ∃ w, w.length = n ∧ At bytes o w := by
  have hlen : ((bytes.drop o).take n).length = n := by
    rw [length_take, length_drop]
    omega
  exact ⟨(bytes.drop o).take n, hlen, by rw [hlen], by rw [hlen]; exact h⟩

theorem at_zero_iff : At bytes 0 w ∧ w.length = bytes.length ↔ w = bytes := by
  constructor
  · rintro ⟨⟨h, -⟩, hlen⟩
    rwa [drop_zero, hlen, take_length, eq_comm] at h
  · rintro rfl
    exact ⟨⟨take_length, by omega⟩, rfl⟩

structure ByteBlock (n : ℕ) where
  bytes : List UInt8
  length_eq : bytes.length = n
  deriving DecidableEq

namespace ByteBlock

variable {n : ℕ}

@[ext] theorem ext {a b : ByteBlock n} (h : a.bytes = b.bytes) : a = b := by
  cases a
  cases b
  simpa using h

def get (a : ByteBlock n) (i : Fin n) : UInt8 := a.bytes.get (i.cast a.length_eq.symm)

def flatten (as : List (ByteBlock n)) : List UInt8 := as.flatMap ByteBlock.bytes

theorem length_flatten (as : List (ByteBlock n)) : (flatten as).length = as.length * n := by
  induction as with
  | nil => simp [flatten]
  | cons a as ih =>
    have : flatten (a :: as) = a.bytes ++ flatten as := rfl
    rw [this, length_append, ih, a.length_eq, length_cons, Nat.succ_mul, Nat.add_comm]

def cut (n : ℕ) : (k : ℕ) → (w : List UInt8) → w.length = k * n → List (ByteBlock n)
  | 0, _, _ => []
  | k + 1, w, h =>
    ⟨w.take n, by rw [List.length_take, h, Nat.succ_mul]; omega⟩
      :: cut n k (w.drop n) (by rw [List.length_drop, h, Nat.succ_mul]; omega)

theorem flatten_cut {k : ℕ} {w : List UInt8} (h : w.length = k * n) : flatten (cut n k w h) = w := by
  induction k generalizing w with
  | zero => exact (length_eq_zero_iff.1 (h.trans (Nat.zero_mul n))).symm
  | succ k ih =>
    show w.take n ++ flatten (cut n k (w.drop n) _) = w
    rw [ih, take_append_drop]

theorem length_cut {k : ℕ} {w : List UInt8} (h : w.length = k * n) : (cut n k w h).length = k := by
  induction k generalizing w with
  | zero => rfl
  | succ k ih =>
    show (cut n k (w.drop n) _).length + 1 = k + 1
    rw [ih]

theorem cut_flatten (as : List (ByteBlock n)) : cut n as.length (flatten as) (length_flatten as) = as := by
  induction as with
  | nil => rfl
  | cons a as ih =>
    have htake : (flatten (a :: as)).take n = a.bytes := by
      show (a.bytes ++ flatten as).take n = a.bytes
      rw [take_append_of_le_length (by rw [a.length_eq]), take_of_length_le]
      rw [a.length_eq]
    have hdrop : (flatten (a :: as)).drop n = flatten as := by
      show (a.bytes ++ flatten as).drop n = flatten as
      rw [drop_append_of_le_length (by rw [a.length_eq]), drop_of_length_le, nil_append]
      rw [a.length_eq]
    show _ :: cut n as.length _ _ = a :: as
    congr 1
    · exact ByteBlock.ext htake
    · simp only [hdrop, ih]

end ByteBlock

def leNat : List UInt8 → ℕ
  | [] => 0
  | b :: w => b.toNat + 256 * leNat w

def leBytes : ℕ → ℕ → List UInt8
  | 0, _ => []
  | n + 1, v => .ofNat (v % 256) :: leBytes n (v / 256)

@[simp] theorem length_leBytes (n v : ℕ) : (leBytes n v).length = n := by
  induction n generalizing v with
  | zero => rfl
  | succ n ih => simp [leBytes, ih]

theorem leNat_lt (w : List UInt8) : leNat w < 256 ^ w.length := by
  induction w with
  | nil => simp [leNat]
  | cons b w ih =>
    have hb : b.toNat < 256 := b.toNat_lt
    simp only [leNat, length_cons]
    omega

theorem leBytes_leNat (w : List UInt8) : leBytes w.length (leNat w) = w := by
  induction w with
  | nil => rfl
  | cons b w ih =>
    have hb : b.toNat < 256 := b.toNat_lt
    have hmod : (b.toNat + 256 * leNat w) % 256 = b.toNat := by omega
    have hdiv : (b.toNat + 256 * leNat w) / 256 = leNat w := by omega
    simp only [leNat, length_cons, leBytes, hmod, hdiv, ih, UInt8.ofNat_toNat]

theorem leNat_leBytes {v : ℕ} (h : v < 256 ^ n) : leNat (leBytes n v) = v := by
  induction n generalizing v with
  | zero =>
    show 0 = v
    omega
  | succ n ih =>
    have hdiv : v / 256 < 256 ^ n := by
      omega
    have hlow : (UInt8.ofNat (v % 256)).toNat = v % 256 :=
      UInt8.toNat_ofNat_of_lt (by omega : v % 256 < 2 ^ 8)
    simp only [leBytes, leNat, ih hdiv]
    omega

end BlackBull
