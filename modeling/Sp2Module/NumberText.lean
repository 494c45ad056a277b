import Sp2Module.BinaryReader
import Mathlib.Data.List.TakeWhile

/-!
# Numbers in text

What the runtime library reads as a number: digits, perhaps with white space around them and, for a
decimal number, a sign in front. A number may be followed by null characters. Text that is no number
is refused before a number that is too large.
-/

namespace Sp2Module

variable {ε : Type}

/-- The digits of a hexadecimal number. -/
def isHexDigit (c : Char) : Bool :=
  c.isDigit || ('a'.toNat ≤ c.toNat && c.toNat ≤ 'f'.toNat) ||
    ('A'.toNat ≤ c.toNat && c.toNat ≤ 'F'.toNat)

/-- The value of a hexadecimal digit. -/
def digitValue (c : Char) : ℕ :=
  if c.toNat ≤ '9'.toNat then c.toNat - '0'.toNat
  else if c.toNat ≤ 'F'.toNat then c.toNat - 'A'.toNat + 10
  else c.toNat - 'a'.toNat + 10

def numberValue (base : ℕ) (digits : List Char) : ℕ :=
  digits.foldl (fun n c => n * base + digitValue c) 0

/-- The white space around a number. -/
def isWhite (c : Char) : Bool :=
  c == ' ' || ('\t'.toNat ≤ c.toNat && c.toNat ≤ '\r'.toNat)

/-- The number that begins the text, when nothing but white space and null characters follow it. -/
def parseDigits (base : ℕ) (isDigit : Char → Bool) (s : List Char) : Option ℕ :=
  let rest := ((s.dropWhile isDigit).dropWhile isWhite).dropWhile (· == '\x00')
  if s.takeWhile isDigit ≠ [] ∧ rest = [] then some (numberValue base (s.takeWhile isDigit))
  else none

/-- `NumberStyles.Integer`. -/
def parseInteger (s : List Char) : Option ℤ :=
  match s.dropWhile isWhite with
  | '-' :: s => (parseDigits 10 Char.isDigit s).map fun n => -(n : ℤ)
  | '+' :: s => (parseDigits 10 Char.isDigit s).map fun n => (n : ℤ)
  | s => (parseDigits 10 Char.isDigit s).map fun n => (n : ℤ)

/-- `NumberStyles.HexNumber`. -/
def parseHexNumber (s : List Char) : Option ℕ := parseDigits 16 isHexDigit (s.dropWhile isWhite)

def intParse (s : List Char) : Except (Exn ε) ℤ :=
  match parseInteger s with
  | none => .error .format
  | some n => if -2 ^ 31 ≤ n ∧ n < 2 ^ 31 then .ok n else .error .overflow

def uintParse (s : List Char) : Except (Exn ε) UInt32 :=
  match parseInteger s with
  | none => .error .format
  | some n => if 0 ≤ n ∧ n < 2 ^ 32 then .ok (UInt32.ofNat n.toNat) else .error .overflow

def uintParseHex (s : List Char) : Except (Exn ε) UInt32 :=
  match parseHexNumber s with
  | none => .error .format
  | some n => if n < 2 ^ 32 then .ok (UInt32.ofNat n) else .error .overflow

variable {base : ℕ} {isDigit : Char → Bool} {ds ws s : List Char} {c : Char}

theorem isDigit_bounds (h : c.isDigit = true) : 0x30 ≤ c.toNat ∧ c.toNat ≤ 0x39 := by
  simp only [Char.isDigit, Bool.and_eq_true, decide_eq_true_eq] at h
  exact ⟨UInt32.le_iff_toNat_le.mp h.1, UInt32.le_iff_toNat_le.mp h.2⟩

theorem isHexDigit_bounds (h : isHexDigit c = true) :
    (0x30 ≤ c.toNat ∧ c.toNat ≤ 0x39) ∨ (0x61 ≤ c.toNat ∧ c.toNat ≤ 0x66) ∨
      (0x41 ≤ c.toNat ∧ c.toNat ≤ 0x46) := by
  simp only [isHexDigit, Bool.or_eq_true, Bool.and_eq_true, decide_eq_true_eq] at h
  rcases h with (h | ⟨hle, hle'⟩) | ⟨hle, hle'⟩
  · exact Or.inl (isDigit_bounds h)
  · exact Or.inr (Or.inl ⟨hle, hle'⟩)
  · exact Or.inr (Or.inr ⟨hle, hle'⟩)

theorem isWhite_bounds (h : isWhite c = true) : c.toNat ≤ 0x20 := by
  simp only [isWhite, Bool.or_eq_true, beq_iff_eq, Bool.and_eq_true, decide_eq_true_eq] at h
  rcases h with rfl | ⟨-, hle⟩
  · decide
  · exact hle.trans (by decide)

theorem isHexDigit_of_isDigit (h : c.isDigit = true) : isHexDigit c = true := by
  rw [isHexDigit, h]
  rfl

theorem not_isWhite_of_isHexDigit (h : isHexDigit c = true) : isWhite c = false := by
  by_contra hwhite
  rw [Bool.not_eq_false] at hwhite
  have hle := isWhite_bounds hwhite
  have hge := isHexDigit_bounds h
  omega

/-- Digits, and white space behind them. -/
theorem parseDigits_append (hdigit : ∀ c, isDigit c = true → isHexDigit c = true)
    (hne : ds ≠ []) (hds : ∀ c ∈ ds, isDigit c = true) (hws : ∀ c ∈ ws, isWhite c = true) :
    parseDigits base isDigit (ds ++ ws) = some (numberValue base ds) := by
  have hhead : ws.takeWhile isDigit = [] := by
    cases ws with
    | nil => rfl
    | cons c ws =>
      refine List.takeWhile_cons_of_neg fun hc => ?_
      have hwhite := hws c List.mem_cons_self
      rw [not_isWhite_of_isHexDigit (hdigit c hc)] at hwhite
      cases hwhite
  have htake : (ds ++ ws).takeWhile isDigit = ds := by
    rw [List.takeWhile_append_of_pos hds, hhead, List.append_nil]
  have hdrop : (ds ++ ws).dropWhile isDigit = ws := by
    have happend := List.takeWhile_append_dropWhile (p := isDigit) (l := ds ++ ws)
    rw [htake] at happend
    exact List.append_cancel_left happend
  rw [parseDigits, htake, hdrop, List.dropWhile_eq_nil_iff.mpr hws, List.dropWhile_nil,
    if_pos ⟨hne, rfl⟩]

theorem uintParse_append (hne : ds ≠ []) (hds : ∀ c ∈ ds, c.isDigit = true)
    (hws : ∀ c ∈ ws, isWhite c = true) :
    (uintParse (ds ++ ws) : Except (Exn ε) UInt32) =
      if numberValue 10 ds < 2 ^ 32 then .ok (UInt32.ofNat (numberValue 10 ds))
      else .error .overflow := by
  obtain ⟨c, t, rfl⟩ := List.exists_cons_of_ne_nil hne
  have hc := hds c List.mem_cons_self
  have hbounds := isDigit_bounds hc
  have hdrop : (c :: t ++ ws).dropWhile isWhite = c :: t ++ ws :=
    List.dropWhile_cons_of_neg (by
      rw [not_isWhite_of_isHexDigit (isHexDigit_of_isDigit hc)]
      exact Bool.false_ne_true)
  have hparse : parseInteger (c :: t ++ ws) = some (numberValue 10 (c :: t) : ℤ) := by
    have hdigits : parseDigits 10 Char.isDigit (c :: t ++ ws) = _ :=
      parseDigits_append (fun _ => isHexDigit_of_isDigit) hne hds hws
    rw [parseInteger, hdrop, List.cons_append] at *
    split
    · rename_i heq
      cases heq
      exact absurd hbounds (by decide)
    · rename_i heq
      cases heq
      exact absurd hbounds (by decide)
    · rw [hdigits]
      rfl
  simp only [uintParse, hparse, Int.toNat_natCast]
  by_cases hlt : numberValue 10 (c :: t) < 2 ^ 32
  · rw [if_pos ⟨by omega, by omega⟩, if_pos hlt]
  · rw [if_neg (by omega), if_neg hlt]

theorem uintParseHex_append (hne : ds ≠ []) (hds : ∀ c ∈ ds, isHexDigit c = true)
    (hws : ∀ c ∈ ws, isWhite c = true) :
    (uintParseHex (ds ++ ws) : Except (Exn ε) UInt32) =
      if numberValue 16 ds < 2 ^ 32 then .ok (UInt32.ofNat (numberValue 16 ds))
      else .error .overflow := by
  obtain ⟨c, t, rfl⟩ := List.exists_cons_of_ne_nil hne
  have hc := hds c List.mem_cons_self
  have hdrop : (c :: t ++ ws).dropWhile isWhite = c :: t ++ ws :=
    List.dropWhile_cons_of_neg (by
      rw [not_isWhite_of_isHexDigit hc]
      exact Bool.false_ne_true)
  rw [uintParseHex, parseHexNumber, hdrop, parseDigits_append (fun _ h => h) hne hds hws]

/-! ### Writing -/

/-- The capital letters stand for the digits from ten on. -/
def upperDigit (d : ℕ) : Char := d.digitChar.toUpper

/-- The format `X`. -/
def formatX (n : ℕ) : List Char := (Nat.toDigits 16 n).map Char.toUpper

theorem upperDigit_spec {d : ℕ} (h : d < 16) :
    isHexDigit (upperDigit d) = true ∧ digitValue (upperDigit d) = d := by
  have hall : ∀ d < 16, isHexDigit (upperDigit d) = true ∧ digitValue (upperDigit d) = d := by
    decide
  exact hall d h

theorem formatX_of_lt {n : ℕ} (h : n < 16) : formatX n = [upperDigit n] := by
  rw [formatX, Nat.toDigits_of_lt_base h]
  rfl

theorem formatX_of_le {n : ℕ} (h : 16 ≤ n) :
    formatX n = formatX (n / 16) ++ [upperDigit (n % 16)] := by
  rw [formatX, Nat.toDigits_of_base_le (by decide) h, List.map_append]
  rfl

theorem formatX_ne_nil (n : ℕ) : formatX n ≠ [] := by
  simp [formatX, Nat.toDigits_ne_nil]

/-- What is written is a number, and it is read as the number that has been written. -/
theorem numberValue_formatX (n : ℕ) :
    (∀ c ∈ formatX n, isHexDigit c = true) ∧ numberValue 16 (formatX n) = n := by
  induction n using Nat.strong_induction_on with
  | _ n ih =>
    by_cases h : n < 16
    · obtain ⟨hdigit, hvalue⟩ := upperDigit_spec h
      rw [formatX_of_lt h]
      refine ⟨by simpa using hdigit, ?_⟩
      simp only [numberValue, List.foldl_cons, List.foldl_nil, hvalue, Nat.zero_mul, Nat.zero_add]
    · obtain ⟨hdigits, hvalue⟩ := ih (n / 16) (by omega)
      obtain ⟨hlast, hlastValue⟩ := upperDigit_spec (Nat.mod_lt n (by decide : 0 < 16))
      rw [formatX_of_le (by omega)]
      refine ⟨fun c hc => ?_, ?_⟩
      · rcases List.mem_append.mp hc with hc | hc
        · exact hdigits c hc
        · rw [List.mem_singleton.mp hc]
          exact hlast
      · rw [numberValue] at hvalue
        rw [numberValue, List.foldl_append, hvalue, List.foldl_cons, List.foldl_nil, hlastValue]
        omega

end Sp2Module
