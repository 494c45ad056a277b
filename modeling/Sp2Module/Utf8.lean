import Mathlib.Data.Nat.Notation
import Mathlib.Tactic.SplitIfs
import Sp2Module.Bytes

/-!
# UTF-8

The encoder of the core library, and the decoder of the .NET Framework: one replacement character
stands for octets that begin no character, together with a continuation octet that is out of range
behind them. What the encoder writes is decoded as it was.
-/

namespace Sp2Module.Utf8

/-- A character of which some octets have been read: the bits so far, how many octets are owed,
and the range of the next one. -/
structure Pending where
  bits : ℕ
  owed : ℕ
  low : ℕ
  high : ℕ
deriving DecidableEq, Repr

def replacement : Char := Char.ofNat 0xFFFD

/-- The first octet of a character of several octets. -/
def lead (b : ℕ) : Option Pending :=
  if 0xC2 ≤ b ∧ b ≤ 0xDF then some ⟨b - 0xC0, 1, 0x80, 0xBF⟩
  else if 0xE0 ≤ b ∧ b ≤ 0xEF then
    some ⟨b - 0xE0, 2, if b = 0xE0 then 0xA0 else 0x80, if b = 0xED then 0x9F else 0xBF⟩
  else if 0xF0 ≤ b ∧ b ≤ 0xF4 then
    some ⟨b - 0xF0, 3, if b = 0xF0 then 0x90 else 0x80, if b = 0xF4 then 0x8F else 0xBF⟩
  else none

def first (b : ℕ) : List Char × Option Pending :=
  if b < 0x80 then ([Char.ofNat b], none)
  else
    match lead b with
    | none => ([replacement], none)
    | some p => ([], some p)

/-- One octet: the characters it completes and the one it leaves open. -/
def step : Option Pending → ℕ → List Char × Option Pending
  | none, b => first b
  | some p, b =>
    if p.low ≤ b ∧ b ≤ p.high then
      let bits := p.bits * 64 + (b - 0x80)
      if p.owed = 1 then ([Char.ofNat bits], none)
      else ([], some ⟨bits, p.owed - 1, 0x80, 0xBF⟩)
    else if 0x80 ≤ b ∧ b ≤ 0xBF then ([replacement], none)
    else (replacement :: (first b).1, (first b).2)

def decodeFrom : Option Pending → Bytes → List Char
  | none, [] => []
  | some _, [] => [replacement]
  | st, b :: bs => (step st b.toNat).1 ++ decodeFrom (step st b.toNat).2 bs

/-- `Encoding.UTF8.GetString`. -/
def getString (b : Bytes) : String := String.ofList (decodeFrom none b)

/-- `Encoding.UTF8.GetBytes`. -/
def getBytes (s : String) : Bytes := s.toList.flatMap String.utf8EncodeChar

/-- `Encoding.UTF8.GetByteCount`. -/
def getByteCount (s : String) : ℕ := (getBytes s).length

theorem decodeFrom_cons {n : ℕ} (h : n < 256) (st : Option Pending) (bs : Bytes) :
    decodeFrom st (UInt8.ofNat n :: bs) = (step st n).1 ++ decodeFrom (step st n).2 bs := by
  have hn : (UInt8.ofNat n).toNat = n := UInt8.toNat_ofNat_of_lt' h
  cases st <;> simp only [decodeFrom, hn]

theorem step_owed {p : Pending} {b : ℕ} (h : p.low ≤ b ∧ b ≤ p.high) (howed : p.owed ≠ 1) :
    step (some p) b = ([], some ⟨p.bits * 64 + (b - 0x80), p.owed - 1, 0x80, 0xBF⟩) := by
  simp only [step, if_pos h, if_neg howed]

theorem step_last {p : Pending} {b : ℕ} (h : p.low ≤ b ∧ b ≤ p.high) (howed : p.owed = 1) :
    step (some p) b = ([Char.ofNat (p.bits * 64 + (b - 0x80))], none) := by
  simp only [step, if_pos h, if_pos howed]

theorem step_lead {p : Pending} {b : ℕ} (hb : 0x80 ≤ b) (h : lead b = some p) :
    step none b = ([], some p) := by
  simp only [step, first, if_neg (Nat.not_lt.mpr hb), h]

theorem decodeFrom_utf8EncodeChar (c : Char) (bs : Bytes) :
    decodeFrom none (String.utf8EncodeChar c ++ bs) = c :: decodeFrom none bs := by
  have hvalid : c.val.toNat < 0xD800 ∨ 0xDFFF < c.val.toNat ∧ c.val.toNat < 0x110000 := c.valid
  have hc : Char.ofNat c.val.toNat = c := Char.ofNat_toNat c
  unfold String.utf8EncodeChar
  dsimp only
  set v := c.val.toNat
  split_ifs with h1 h2 h3
  · rw [List.cons_append, decodeFrom_cons (by omega)]
    simp only [step, first, if_pos (show v < 0x80 by omega), hc]
    rfl
  · simp only [List.cons_append, List.nil_append]
    have hlead : lead (v / 64 % 0x20 + 0xc0) = some ⟨v / 64 % 0x20 + 0xc0 - 0xC0, 1, 0x80, 0xBF⟩ :=
      if_pos (by omega)
    rw [decodeFrom_cons (by omega), step_lead (by omega) hlead, decodeFrom_cons (by omega),
      step_last (by dsimp only; omega) rfl]
    have hv : (v / 64 % 0x20 + 0xc0 - 0xC0) * 64 + (v % 0x40 + 0x80 - 0x80) = v := by omega
    simp only [hv, hc]
    rfl
  · simp only [List.cons_append, List.nil_append]
    have hlead : lead (v / 4096 % 0x10 + 0xe0) = some ⟨v / 4096 % 0x10 + 0xe0 - 0xE0, 2,
        if v / 4096 % 0x10 + 0xe0 = 0xE0 then 0xA0 else 0x80,
        if v / 4096 % 0x10 + 0xe0 = 0xED then 0x9F else 0xBF⟩ := by
      rw [lead, if_neg (by omega), if_pos (by omega)]
    rw [decodeFrom_cons (by omega), step_lead (by omega) hlead, decodeFrom_cons (by omega),
      step_owed (by dsimp only; split_ifs <;> omega) (by simp), decodeFrom_cons (by omega),
      step_last (by dsimp only; omega) rfl]
    have hv : ((v / 4096 % 0x10 + 0xe0 - 0xE0) * 64 + (v / 64 % 0x40 + 0x80 - 0x80)) * 64 +
        (v % 0x40 + 0x80 - 0x80) = v := by omega
    simp only [hv, hc]
    rfl
  · simp only [List.cons_append, List.nil_append]
    have hlead : lead (v / 262144 % 0x08 + 0xf0) = some ⟨v / 262144 % 0x08 + 0xf0 - 0xF0, 3,
        if v / 262144 % 0x08 + 0xf0 = 0xF0 then 0x90 else 0x80,
        if v / 262144 % 0x08 + 0xf0 = 0xF4 then 0x8F else 0xBF⟩ := by
      rw [lead, if_neg (by omega), if_neg (by omega), if_pos (by omega)]
    rw [decodeFrom_cons (by omega), step_lead (by omega) hlead, decodeFrom_cons (by omega),
      step_owed (by dsimp only; split_ifs <;> omega) (by simp), decodeFrom_cons (by omega),
      step_owed (by dsimp only; omega) (by simp), decodeFrom_cons (by omega),
      step_last (by dsimp only; omega) rfl]
    have hv : (((v / 262144 % 0x08 + 0xf0 - 0xF0) * 64 + (v / 4096 % 0x40 + 0x80 - 0x80)) * 64 +
        (v / 64 % 0x40 + 0x80 - 0x80)) * 64 + (v % 0x40 + 0x80 - 0x80) = v := by omega
    simp only [hv, hc]
    rfl

theorem decodeFrom_flatMap (cs : List Char) (bs : Bytes) :
    decodeFrom none (cs.flatMap String.utf8EncodeChar ++ bs) = cs ++ decodeFrom none bs := by
  induction cs with
  | nil => rfl
  | cons c cs ih =>
    rw [List.flatMap_cons, List.append_assoc, decodeFrom_utf8EncodeChar, ih, List.cons_append]

@[simp] theorem getString_getBytes (s : String) : getString (getBytes s) = s := by
  have h := decodeFrom_flatMap s.toList []
  simp only [List.append_nil] at h
  rw [getString, getBytes, h, decodeFrom, List.append_nil, String.ofList_toList]

theorem getBytes_append (s t : String) : getBytes (s ++ t) = getBytes s ++ getBytes t := by
  simp [getBytes]

/-- The octet zero occurs in the encoding of no other character. -/
theorem zero_mem_utf8EncodeChar {c : Char} (h : 0 ∈ String.utf8EncodeChar c) : c.toNat = 0 := by
  have hvalid : c.val.toNat < 0xD800 ∨ 0xDFFF < c.val.toNat ∧ c.val.toNat < 0x110000 := c.valid
  have hzero : ∀ n, n < 256 → 0 = UInt8.ofNat n → n = 0 := by
    intro n hn h0
    have hn' := congrArg UInt8.toNat h0
    rw [UInt8.toNat_ofNat_of_lt' hn] at hn'
    exact hn'.symm
  unfold String.utf8EncodeChar at h
  change c.val.toNat = 0
  dsimp only at h
  split_ifs at h
  all_goals
    simp only [List.mem_cons, List.not_mem_nil, or_false] at h
    grind

theorem zero_mem_getBytes {s : String} (h : 0 ∈ getBytes s) : ∃ c ∈ s.toList, c.toNat = 0 := by
  obtain ⟨c, hc, hzero⟩ := List.mem_flatMap.mp h
  exact ⟨c, hc, zero_mem_utf8EncodeChar hzero⟩

end Sp2Module.Utf8
