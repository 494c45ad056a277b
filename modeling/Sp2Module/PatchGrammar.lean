import Sp2Module.PatchScript
import Mathlib.Data.List.Forall2

/-!
# The grammar of patch scripts

The grammar of the entries, stated apart from the parser, with the entry that a line denotes. The
parser follows it for some lines only. A line of the grammar is read as it should be where the
culture finds the `!` in front of the symbols and nowhere else. Any other line has to be refused
with a `PatchConfigException`, but the type and the payload may be accepted, or refused with an
exception of the runtime library.
-/

namespace Sp2Module

/-- `!name`, or a module and an offset below `2 ^ 32` in decimal or hexadecimal digits. -/
inductive AddressText : List Char → MemAddress → Prop where
  | symbol (name : List Char) : AddressText ('!' :: name) (.symbol (String.ofList name))
  | decimal {word digits : List Char} {nsoType : NsoTypeEnum}
      (hword : (word, nsoType) ∈ moduleWords) (hne : digits ≠ [])
      (hdigits : ∀ c ∈ digits, c.isDigit = true) (hlt : numberValue 10 digits < 2 ^ 32) :
      AddressText (word ++ '+' :: digits)
        (.offset nsoType (UInt32.ofNat (numberValue 10 digits)))
  | hexadecimal {word digits : List Char} {nsoType : NsoTypeEnum}
      (hword : (word, nsoType) ∈ moduleWords) (hne : digits ≠ [])
      (hdigits : ∀ c ∈ digits, isHexDigit c = true) (hlt : numberValue 16 digits < 2 ^ 32) :
      AddressText (word ++ '+' :: '0' :: 'x' :: digits)
        (.offset nsoType (UInt32.ofNat (numberValue 16 digits)))

/-- Two hexadecimal digits for each byte. -/
inductive HexText : List Char → Bytes → Prop where
  | nil : HexText [] []
  | cons {c c' : Char} {s : List Char} {bytes : Bytes} (h : isHexDigit c = true)
      (h' : isHexDigit c' = true) (hs : HexText s bytes) :
      HexText (c :: c' :: s) (UInt8.ofNat (16 * digitValue c + digitValue c') :: bytes)

inductive PayloadText : PatchTypeEnum → List Char → PatchData → Prop where
  | bl {s : List Char} {target : MemAddress} (h : AddressText s target) :
      PayloadText .bl s (.bl target)
  | b {s : List Char} {target : MemAddress} (h : AddressText s target) :
      PayloadText .b s (.b target)
  | data {s : List Char} {bytes : Bytes} (h : HexText s bytes) : PayloadText .data s (.data bytes)
  | ptr {s : List Char} {target : MemAddress} (h : AddressText s target) :
      PayloadText .ptr s (.ptr target)

/-- The text `f` with blanks around it; it does not begin or end with a blank, and there is no arrow
in it. -/
def Padded (f p : List Char) : Prop :=
  Bare isBlank f ∧ ¬ ['-', '>'] <:+: f ∧
    ∃ u v, p = u ++ f ++ v ∧ (∀ c ∈ u, isBlank c = true) ∧ ∀ c ∈ v, isBlank c = true

/-- `TYPE -> ADDR -> PAYLOAD`. -/
def Grammar (line : List Char) (entry : PatchEntry) : Prop :=
  ∃ type address payload p₀ p₁ p₂,
    line = p₀ ++ '-' :: '>' :: (p₁ ++ '-' :: '>' :: p₂) ∧
    Padded (PatchTypeEnum.word type) p₀ ∧ Padded address p₁ ∧ Padded payload p₂ ∧
    AddressText address entry.address ∧ PayloadText type payload entry.data

/-- The parser accepts the lines of the grammar with the entries they denote, and refuses every
other line with a `PatchConfigException`. -/
def FollowsGrammar (ci : CompareInfo) (line : List Char) : Prop :=
  (∀ entry, PatchEntry.parse ci line = .ok entry ↔ Grammar line entry) ∧
    ((∀ entry, ¬ Grammar line entry) →
      ∃ message, PatchEntry.parse ci line = .error (.app (.patchConfig message)))

/-! ### When the parser follows it -/

/-- The culture finds `!` in front of the text when it is the first character. -/
def PrefixAgrees (ci : CompareInfo) (s : List Char) : Prop :=
  ci.isPrefix s ['!'] = true ↔ s.head? = some '!'

/-- The text is taken for an address. -/
def IsAddress (ci : CompareInfo) (s : List Char) : Prop :=
  ci.isPrefix s ['!'] = true ∨ (addressMatch s).isSome

/-- The number behind the plus. -/
def offsetValue (number : List Char) : ℕ :=
  match dropNewline number with
  | '0' :: 'x' :: digits => numberValue 16 digits
  | digits => numberValue 10 digits

/-- The text is taken for an address, and an offset is below `2 ^ 32`. -/
def AddressFits (ci : CompareInfo) (s : List Char) : Prop :=
  if ci.isPrefix s ['!'] then s ≠ []
  else ∃ nsoType number, addressMatch s = some (nsoType, number) ∧ offsetValue number < 2 ^ 32

/-- The value is not in the enumeration, or there are not three parts, or the payload is to be an
address and is none. -/
def RefusesPayload (ci : CompareInfo) (patchType : ℤ) (rest : List (List Char)) : Prop :=
  PatchTypeEnum.ofValue patchType = none ∨ rest.length ≠ 1 ∨
    (PatchTypeEnum.ofValue patchType ≠ some .data ∧ ∀ s ∈ rest, ¬ IsAddress ci s)

/-- There is no arrow; or `Enum.Parse` accepts the type, and the second part is no address, or it is
one that fits and the payload is refused. -/
def Refuses (ci : CompareInfo) (line : List Char) : Prop :=
  match PatchEntry.fields line with
  | type :: address :: rest => ∃ patchType, PatchTypeEnum.parse type = .ok patchType ∧
      (¬ IsAddress ci address ∨ (AddressFits ci address ∧ RefusesPayload ci patchType rest))
  | _ => True

/-- In the parts that are addresses the culture finds `!` where it is. -/
def PrefixesAgree (ci : CompareInfo) (line : List Char) : Prop :=
  match PatchEntry.fields line with
  | [type, address, payload] => PrefixAgrees ci address ∧
      (type ≠ PatchTypeEnum.data.word → PrefixAgrees ci payload)
  | _ => True

/-! ### Lines of the grammar -/

variable {ci : CompareInfo} {line s : List Char} {entry : PatchEntry} {a : MemAddress}

theorem arrow_infix_of_blanks {u v f : List Char} (hu : ∀ c ∈ u, isBlank c = true)
    (hv : ∀ c ∈ v, isBlank c = true) (h : ['-', '>'] <:+: u ++ f ++ v) : ['-', '>'] <:+: f := by
  have hdash : '-' ∉ u := fun hmem => absurd (hu _ hmem) (by decide)
  have harrow : '>' ∉ v := fun hmem => absurd (hv _ hmem) (by decide)
  rwa [pair_infix_append_right harrow, pair_infix_append_left hdash] at h

theorem padded_iff {f p : List Char} :
    Padded f p ↔ trim isBlank p = f ∧ ¬ ['-', '>'] <:+: p := by
  constructor
  · rintro ⟨hbare, hinfix, u, v, rfl, hu, hv⟩
    exact ⟨hbare.trim_append hu hv, fun h => hinfix (arrow_infix_of_blanks hu hv h)⟩
  · rintro ⟨rfl, hinfix⟩
    obtain ⟨u, v, hp, hu, hv⟩ := exists_trim isBlank p
    have htrim : trim isBlank p <:+: p := ⟨u, v, hp.symm⟩
    exact ⟨bare_trim isBlank p, fun h => hinfix (h.trans htrim), u, v, hp, hu, hv⟩

/-- A line of the grammar has three parts. -/
theorem grammar_iff : Grammar line entry ↔ ∃ type address payload,
    PatchEntry.fields line = [PatchTypeEnum.word type, address, payload] ∧
      AddressText address entry.address ∧ PayloadText type payload entry.data := by
  have harrow : '-' ≠ '>' := by decide
  simp only [Grammar, padded_iff, PatchEntry.fields]
  constructor
  · rintro ⟨type, address, payload, p₀, p₁, p₂, rfl, ⟨h₀, hi₀⟩, ⟨h₁, hi₁⟩, ⟨h₂, hi₂⟩, ha, hp⟩
    refine ⟨type, address, payload, ?_, ha, hp⟩
    rw [splitPair_append harrow hi₀, splitPair_append harrow hi₁, splitPair_of_not_infix hi₂,
      List.map_cons, List.map_cons, List.map_cons, h₀, h₁, h₂]
    rfl
  · rintro ⟨type, address, payload, hfields, ha, hp⟩
    obtain ⟨p₀, ps, hsplit, h₀, hps⟩ := List.map_eq_cons_iff.mp hfields
    obtain ⟨p₁, ps', rfl, h₁, hps'⟩ := List.map_eq_cons_iff.mp hps
    obtain ⟨p₂, ps'', rfl, h₂, hps''⟩ := List.map_eq_cons_iff.mp hps'
    rw [List.map_eq_nil_iff] at hps''
    subst hps''
    obtain ⟨hi₀, ⟨hnil, -⟩ | ⟨l, rfl, hl⟩⟩ := (splitPair_eq_cons_iff harrow).mp hsplit
    · cases hnil
    obtain ⟨hi₁, ⟨hnil, -⟩ | ⟨l', rfl, hl'⟩⟩ := (splitPair_eq_cons_iff harrow).mp hl.symm
    · cases hnil
    obtain ⟨hi₂, ⟨-, rfl⟩ | ⟨l'', rfl, hl''⟩⟩ := (splitPair_eq_cons_iff harrow).mp hl'.symm
    · exact ⟨type, address, payload, p₀, p₁, l', rfl, ⟨h₀, hi₀⟩, ⟨h₁, hi₁⟩, ⟨h₂, hi₂⟩, ha, hp⟩
    · exact absurd hl''.symm (splitPair_ne_nil _ _ _)

theorem dropNewline_of_notMem (h : '\n' ∉ s) : dropNewline s = s :=
  if_neg fun hlast => h (List.mem_of_getLast? hlast)

theorem exists_dropNewline (s : List Char) :
    ∃ ws, s = dropNewline s ++ ws ∧ ∀ c ∈ ws, isWhite c = true := by
  unfold dropNewline
  split_ifs with hlast
  · obtain ⟨t, rfl⟩ := List.getLast?_eq_some_iff.mp hlast
    refine ⟨['\n'], by rw [List.dropLast_concat], fun c hc => ?_⟩
    rw [List.mem_singleton.mp hc]
    rfl
  · exact ⟨[], (List.append_nil s).symm, by simp⟩

/-- Digits do not begin like a hexadecimal number. -/
theorem ne_hexPrefix {ds ws t : List Char} (hds : ∀ c ∈ ds, c.isDigit = true)
    (hws : ∀ c ∈ ws, isWhite c = true) : ds ++ ws ≠ '0' :: 'x' :: t := by
  intro h
  have hx : 'x' ∈ ds ++ ws := by
    rw [h]
    simp
  rcases List.mem_append.mp hx with hmem | hmem
  · exact absurd (hds _ hmem) (by decide)
  · exact absurd (hws _ hmem) (by decide)

theorem numberPattern_decimal {ds : List Char} (hne : ds ≠ [])
    (hds : ∀ c ∈ ds, c.isDigit = true) :
    numberPattern ds = true ∧ offsetValue ds = numberValue 10 ds := by
  have hdrop := dropNewline_of_notMem fun hmem => absurd (hds _ hmem) (by decide)
  have hmark : ∀ t, ds ≠ '0' :: 'x' :: t := fun t h =>
    ne_hexPrefix hds (List.forall_mem_nil _) ((List.append_nil ds).trans h)
  constructor
  · unfold numberPattern
    rw [hdrop]
    split
    · exact absurd rfl (hmark _)
    · simpa [hne] using hds
  · unfold offsetValue
    rw [hdrop]
    split
    · exact absurd rfl (hmark _)
    · rfl

theorem numberPattern_hexadecimal {ds : List Char} (hne : ds ≠ [])
    (hds : ∀ c ∈ ds, isHexDigit c = true) :
    numberPattern ('0' :: 'x' :: ds) = true ∧
      offsetValue ('0' :: 'x' :: ds) = numberValue 16 ds := by
  have hnot : '\n' ∉ '0' :: 'x' :: ds := by
    intro hmem
    rcases List.mem_cons.mp hmem with h | hmem
    · exact absurd h (by decide)
    rcases List.mem_cons.mp hmem with h | hmem
    · exact absurd h (by decide)
    · exact absurd (hds _ hmem) (by decide)
  have hdrop := dropNewline_of_notMem hnot
  constructor
  · simp only [numberPattern, hdrop]
    simpa [hne] using hds
  · simp only [offsetValue, hdrop]

theorem offsetValue_of_ne (h : ∀ t, dropNewline s ≠ '0' :: 'x' :: t) :
    offsetValue s = numberValue 10 (dropNewline s) := by
  unfold offsetValue
  split
  · rename_i ds hds
    exact absurd hds (h ds)
  · rfl

theorem parseOffset_of_ne (h : ∀ t, s ≠ '0' :: 'x' :: t) : parseOffset s = uintParse s := by
  unfold parseOffset
  split
  · exact absurd rfl (h _)
  · rfl

/-- A number that matches is read, unless it is too large. -/
theorem parseOffset_of_pattern {number : List Char} (h : numberPattern number = true) :
    parseOffset number = if offsetValue number < 2 ^ 32 then
      .ok (UInt32.ofNat (offsetValue number)) else .error .overflow := by
  obtain ⟨ws, hnumber, hws⟩ := exists_dropNewline number
  unfold numberPattern at h
  split at h
  · rename_i ds hds
    rw [Bool.and_eq_true, List.all_eq_true] at h
    rw [hds] at hnumber
    simp only [offsetValue, hds]
    rw [hnumber]
    exact uintParseHex_append (by simpa using h.1) h.2 hws
  · rename_i hmark
    rw [Bool.and_eq_true, List.all_eq_true] at h
    have hne : ∀ t, number ≠ '0' :: 'x' :: t := by
      rw [hnumber]
      exact fun t => ne_hexPrefix h.2 hws
    have hparse : (uintParse (dropNewline number ++ ws) : Except Exception UInt32) = _ :=
      uintParse_append (by simpa using h.1) h.2 hws
    rw [← hnumber] at hparse
    rw [offsetValue_of_ne fun t ht => hmark t ht, parseOffset_of_ne hne, hparse]

theorem addressMatch_of_mem {word number : List Char} {nsoType : NsoTypeEnum}
    (hword : (word, nsoType) ∈ moduleWords) (hplus : '+' ∉ number)
    (hnumber : numberPattern number = true) :
    addressMatch (word ++ '+' :: number) = some (nsoType, number) := by
  have hnot : '+' ∉ word := by
    have hwords : ∀ w ∈ moduleWords, '+' ∉ w.1 := by decide
    exact hwords _ hword
  have hlookup : moduleWords.lookup word = some nsoType := by
    have hwords : ∀ w ∈ moduleWords, moduleWords.lookup w.1 = some w.2 := by decide
    exact hwords _ hword
  have hsplit : (word ++ '+' :: number).splitOn '+' = [word, number] := by
    rw [List.splitOn_append_cons_self_of_not_mem hnot, List.splitOn_eq_singleton hplus]
  simp only [addressMatch, hsplit, hnumber, hlookup]
  rfl

theorem addressMatch_eq_some {nsoType : NsoTypeEnum} {number : List Char}
    (h : addressMatch s = some (nsoType, number)) : numberPattern number = true := by
  unfold addressMatch at h
  split at h
  · split_ifs at h with hnumber
    obtain ⟨t, -, ht⟩ := Option.map_eq_some_iff.mp h
    cases ht
    exact hnumber
  · cases h

theorem addressMatch_symbol (name : List Char) : addressMatch ('!' :: name) = none := by
  have hlookup : ∀ word, moduleWords.lookup ('!' :: word) = none := by
    intro word
    simp [moduleWords, List.lookup_cons]
  obtain ⟨word', words, hsplit⟩ := exists_splitOn_cons (x := '!') (a := '+') (by decide) name
  unfold addressMatch
  split
  · rename_i word number heq
    rw [hsplit] at heq
    cases heq
    rw [hlookup]
    split_ifs <;> rfl
  · rfl

/-! ### Addresses -/

/-- The parser finds a symbol behind `!` and an offset elsewhere. -/
theorem AddressText.symbol_or_offset (h : AddressText s a) :
    (∃ name, s = '!' :: name ∧ a = .symbol (String.ofList name)) ∨
      (s.head? ≠ some '!' ∧ ∃ nsoType number off, a = .offset nsoType off ∧
        addressMatch s = some (nsoType, number) ∧ parseOffset number = .ok off) := by
  have hhead : ∀ {word rest : List Char} {nsoType : NsoTypeEnum}, (word, nsoType) ∈ moduleWords →
      (word ++ rest).head? ≠ some '!' := by
    intro word rest nsoType hword
    have hwords : ∀ w ∈ moduleWords, w.1.head? ≠ some '!' ∧ w.1 ≠ [] := by decide
    obtain ⟨hne, hnil⟩ := hwords _ hword
    rwa [List.head?_append_of_ne_nil _ hnil]
  cases h with
  | symbol name => exact Or.inl ⟨name, rfl, rfl⟩
  | @decimal word digits nsoType hword hne hdigits hlt =>
    obtain ⟨hnumber, hvalue⟩ := numberPattern_decimal hne hdigits
    have hplus : '+' ∉ digits := fun hmem => absurd (hdigits '+' hmem) (by decide)
    refine Or.inr ⟨hhead hword, _, _, _, rfl, addressMatch_of_mem hword hplus hnumber, ?_⟩
    rw [parseOffset_of_pattern hnumber, hvalue, if_pos hlt]
  | @hexadecimal word digits nsoType hword hne hdigits hlt =>
    obtain ⟨hnumber, hvalue⟩ := numberPattern_hexadecimal hne hdigits
    have hplus : '+' ∉ '0' :: 'x' :: digits := by
      simp only [List.mem_cons, not_or]
      exact ⟨by decide, by decide, fun hmem => absurd (hdigits '+' hmem) (by decide)⟩
    refine Or.inr ⟨hhead hword, _, _, _, rfl, addressMatch_of_mem hword hplus hnumber, ?_⟩
    rw [parseOffset_of_pattern hnumber, hvalue, if_pos hlt]

theorem MemAddress.parse_of_addressMatch {nsoType : NsoTypeEnum} {number : List Char}
    (hmark : ci.isPrefix s ['!'] = false) (h : addressMatch s = some (nsoType, number)) :
    MemAddress.parse ci s = (parseOffset number).map (.offset nsoType) := by
  simp only [MemAddress.parse, hmark, Bool.false_eq_true, if_false, h]

theorem MemAddress.parse_of_addressMatch_none (hmark : ci.isPrefix s ['!'] = false)
    (h : addressMatch s = none) : MemAddress.parse ci s =
      .error (.app (.patchConfig ("Invalid address : " ++ String.ofList s))) := by
  simp only [MemAddress.parse, hmark, Bool.false_eq_true, if_false, h]

theorem MemAddress.parse_of_prefix {c : Char} {name : List Char}
    (hmark : ci.isPrefix (c :: name) ['!'] = true) :
    MemAddress.parse ci (c :: name) = .ok (.symbol (String.ofList name)) := by
  simp only [MemAddress.parse, hmark, if_true]

/-- An address of the grammar is read as what it denotes when the culture agrees. -/
theorem AddressText.parse_eq_ok_iff (h : AddressText s a) :
    MemAddress.parse ci s = .ok a ↔ PrefixAgrees ci s := by
  rcases h.symbol_or_offset with ⟨name, rfl, rfl⟩ | ⟨hhead, nsoType, number, off, rfl, hmatch, hoff⟩
  · have hagrees : PrefixAgrees ci ('!' :: name) ↔ ci.isPrefix ('!' :: name) ['!'] = true :=
      iff_true_right rfl
    rw [hagrees]
    cases hmark : ci.isPrefix ('!' :: name) ['!'] with
    | true => simp only [MemAddress.parse_of_prefix hmark]
    | false =>
      simp [MemAddress.parse_of_addressMatch_none hmark (addressMatch_symbol name)]
  · have hagrees : PrefixAgrees ci s ↔ ci.isPrefix s ['!'] = false := by
      rw [PrefixAgrees, iff_false_right hhead, Bool.not_eq_true]
    rw [hagrees]
    cases hmark : ci.isPrefix s ['!'] with
    | true =>
      cases s with
      | nil => cases hmatch
      | cons c name => simp [MemAddress.parse_of_prefix hmark]
    | false => simp [MemAddress.parse_of_addressMatch hmark hmatch, hoff, Except.map]

/-- An address that fits is read, what is no address is refused, and an address that does not fit
fails otherwise. -/
theorem MemAddress.parse_cases (ci : CompareInfo) (s : List Char) :
    ((∃ a, MemAddress.parse ci s = .ok a) ∧ IsAddress ci s ∧ AddressFits ci s) ∨
    ((∃ message, MemAddress.parse ci s = .error (.app (.patchConfig message))) ∧
      ¬ IsAddress ci s ∧ ¬ AddressFits ci s) ∨
    (∃ x, MemAddress.parse ci s = .error x ∧ (∀ message, x ≠ .app (.patchConfig message)) ∧
      IsAddress ci s ∧ ¬ AddressFits ci s) := by
  unfold IsAddress AddressFits
  cases hmark : ci.isPrefix s ['!'] with
  | true =>
    cases s with
    | nil => simp [MemAddress.parse, hmark]
    | cons c name => simp [MemAddress.parse_of_prefix hmark]
  | false =>
    cases hmatch : addressMatch s with
    | none => simp [MemAddress.parse_of_addressMatch_none hmark hmatch]
    | some p =>
      obtain ⟨nsoType, number⟩ := p
      rw [MemAddress.parse_of_addressMatch hmark hmatch,
        parseOffset_of_pattern (addressMatch_eq_some hmatch)]
      split_ifs with hlt <;> simp_all [Except.map]

/-- What is no address is refused, and nothing else is refused like that. -/
theorem MemAddress.parse_refused_iff :
    (∃ message, MemAddress.parse ci s = .error (.app (.patchConfig message))) ↔
      ¬ IsAddress ci s := by
  obtain ⟨⟨a, ha⟩, haddress, -⟩ | ⟨hrefused, haddress, -⟩ | ⟨x, hx, hne, haddress, -⟩ :=
    MemAddress.parse_cases ci s
  · simp [ha, haddress]
  · exact iff_of_true hrefused haddress
  · simp [hx, hne, haddress]

theorem MemAddress.parse_fits_iff : (∃ a, MemAddress.parse ci s = .ok a) ↔ AddressFits ci s := by
  obtain ⟨ha, -, hfits⟩ | ⟨⟨message, hm⟩, -, hfits⟩ | ⟨x, hx, -, -, hfits⟩ :=
    MemAddress.parse_cases ci s
  · exact iff_of_true ha hfits
  · simp [hm, hfits]
  · simp [hx, hfits]

/-! ### Types and payloads -/

theorem PatchTypeEnum.parse_word (t : PatchTypeEnum) :
    PatchTypeEnum.parse t.word = .ok t.value := by
  cases t <;> decide

theorem PatchTypeEnum.ofValue_value (t : PatchTypeEnum) : ofValue t.value = some t := by
  cases t <;> decide

/-- `Enum.Parse` has exceptions of its own. -/
theorem enumParse_ne_app {names : List (List Char × ℕ)} {error : AppError} :
    enumParse names s ≠ .error (.app error) := by
  have hnames : ∀ value, enumParseNames names value ≠ .error (.app error) := by
    intro value
    unfold enumParseNames
    split <;> simp
  have hint : ∀ value, (intParse value : Except Exception ℤ) ≠ .error (.app error) := by
    intro value
    unfold intParse
    split
    · simp
    · split_ifs <;> simp
  unfold enumParse
  split
  · simp
  · rename_i c t htrim
    split_ifs
    · split
      · simp
      · exact hnames _
      · rename_i x hne hx
        intro h
        cases h
        exact hint _ hx
    · exact hnames _

theorem hexUnitsToBytes_ne_app {units : List ℕ} {error : AppError} :
    hexUnitsToBytes units ≠ .error (.app error) := by
  have hbyte : ∀ u v, toByte16 u v ≠ .error (.app error) := by
    intro u v
    unfold toByte16
    split_ifs
    · simp
    · split <;> simp
    · split <;> simp
  induction units using hexUnitsToBytes.induct with
  | case1 => simp [hexUnitsToBytes]
  | case2 u => simp [hexUnitsToBytes]
  | case3 u v units ih =>
    intro h
    rw [hexUnitsToBytes] at h
    rcases except_bind_eq_error.mp h with hfirst | ⟨byte, -, hrest⟩
    · exact hbyte u v hfirst
    rcases except_bind_eq_error.mp hrest with hlater | ⟨bytes, -, hpure⟩
    · exact ih hlater
    · cases hpure

theorem toByte16_of_isHexDigit {c c' : Char} (h : isHexDigit c = true) (h' : isHexDigit c' = true) :
    toByte16 c.toNat c'.toNat = .ok (UInt8.ofNat (16 * digitValue c + digitValue c')) := by
  have hbounds := isHexDigit_bounds h
  have hminus : c.toNat ≠ '-'.toNat := by
    change c.toNat ≠ 0x2D
    omega
  have hplus : c.toNat ≠ '+'.toNat := by
    change c.toNat ≠ 0x2B
    omega
  rw [toByte16, if_neg hminus, if_neg hplus]
  simp only [hexUnit, Char.ofNat_toNat, h, h', if_true]

theorem HexText.hexToBytes_eq {bytes : Bytes} (h : HexText s bytes) : hexToBytes s = .ok bytes := by
  induction h with
  | nil => rfl
  | @cons c c' s bytes hc hc' hs ih =>
    have hunit : ∀ {c : Char}, isHexDigit c = true → utf16 c = [c.toNat] := by
      intro c hc
      have hbounds := isHexDigit_bounds hc
      exact if_pos (by omega)
    unfold hexToBytes at ih ⊢
    rw [List.flatMap_cons, List.flatMap_cons, hunit hc, hunit hc', List.singleton_append,
      List.singleton_append, hexUnitsToBytes, toByte16_of_isHexDigit hc hc', ih]
    rfl

/-- A payload of the grammar is read as what it denotes when the culture agrees on an address. -/
theorem PayloadText.parseData_eq_ok_iff {type : PatchTypeEnum} {data : PatchData}
    (h : PayloadText type s data) : PatchEntry.parseData ci line type.value [s] = .ok data ↔
      (type.word ≠ PatchTypeEnum.data.word → PrefixAgrees ci s) := by
  unfold PatchEntry.parseData
  rw [PatchTypeEnum.ofValue_value]
  cases h with
  | bl h =>
    rw [forall_prop_of_true (by decide), ← h.parse_eq_ok_iff]
    simp [except_map_eq_ok]
  | b h =>
    rw [forall_prop_of_true (by decide), ← h.parse_eq_ok_iff]
    simp [except_map_eq_ok]
  | data h => simp [h.hexToBytes_eq, Except.map]
  | ptr h =>
    rw [forall_prop_of_true (by decide), ← h.parse_eq_ok_iff]
    simp [except_map_eq_ok]

theorem parseData_refused_iff {patchType : ℤ} {rest : List (List Char)} :
    (∃ message, PatchEntry.parseData ci line patchType rest =
      .error (.app (.patchConfig message))) ↔ RefusesPayload ci patchType rest := by
  unfold PatchEntry.parseData RefusesPayload
  cases htype : PatchTypeEnum.ofValue patchType with
  | none => simp
  | some type =>
    match rest with
    | [] => cases type <;> simp [PatchEntry.invalidEntry]
    | [payload] =>
      have haddress : (∃ message, MemAddress.parse ci payload =
          .error (.app (.patchConfig message))) ↔ ¬ IsAddress ci payload :=
        MemAddress.parse_refused_iff
      have hdata : ∀ error, hexToBytes payload ≠ .error (.app error) :=
        fun error => hexUnitsToBytes_ne_app
      cases type <;> simp [except_map_eq_error, haddress, hdata]
    | _ :: _ :: _ => cases type <;> simp [PatchEntry.invalidEntry]

/-! ### Entries -/

namespace PatchEntry

theorem parse_eq_ok_iff {type address : List Char} {rest : List (List Char)}
    (hfields : fields line = type :: address :: rest) :
    parse ci line = .ok entry ↔ ∃ patchType, PatchTypeEnum.parse type = .ok patchType ∧
      MemAddress.parse ci address = .ok entry.address ∧
      parseData ci line patchType rest = .ok entry.data := by
  simp only [parse, hfields, except_bind_eq_ok, pure, Except.pure, Except.ok.injEq]
  constructor
  · rintro ⟨patchType, htype, a, ha, data, hdata, rfl⟩
    exact ⟨patchType, htype, ha, hdata⟩
  · rintro ⟨patchType, htype, ha, hdata⟩
    exact ⟨patchType, htype, _, ha, _, hdata, rfl⟩

theorem parse_refused_iff :
    (∃ message, parse ci line = .error (.app (.patchConfig message))) ↔ Refuses ci line := by
  unfold Refuses parse
  generalize fields line = parts
  match parts with
  | [] => exact iff_of_true ⟨_, rfl⟩ trivial
  | [_] => exact iff_of_true ⟨_, rfl⟩ trivial
  | type :: address :: rest =>
    constructor
    · rintro ⟨message, h⟩
      rcases except_bind_eq_error.mp h with htype | ⟨patchType, htype, h⟩
      · exact absurd htype enumParse_ne_app
      refine ⟨patchType, htype, ?_⟩
      rcases except_bind_eq_error.mp h with haddress | ⟨a, ha, h⟩
      · exact Or.inl (MemAddress.parse_refused_iff.mp ⟨message, haddress⟩)
      rcases except_bind_eq_error.mp h with hdata | ⟨data, -, h⟩
      · exact Or.inr ⟨MemAddress.parse_fits_iff.mp ⟨a, ha⟩,
          parseData_refused_iff.mp ⟨message, hdata⟩⟩
      · cases h
    · rintro ⟨patchType, htype, haddress | ⟨hfits, hpayload⟩⟩
      · obtain ⟨message, herror⟩ := MemAddress.parse_refused_iff.mpr haddress
        refine ⟨message, except_bind_eq_error.mpr (Or.inr ⟨patchType, htype, ?_⟩)⟩
        exact except_bind_eq_error.mpr (Or.inl herror)
      · obtain ⟨a, ha⟩ := MemAddress.parse_fits_iff.mpr hfits
        have hrefused : ∃ message, parseData ci line patchType rest =
            .error (.app (.patchConfig message)) := parseData_refused_iff.mpr hpayload
        obtain ⟨message, herror⟩ := hrefused
        refine ⟨message, except_bind_eq_error.mpr (Or.inr ⟨patchType, htype, ?_⟩)⟩
        refine except_bind_eq_error.mpr (Or.inr ⟨a, ha, ?_⟩)
        exact except_bind_eq_error.mpr (Or.inl herror)

/-- Where the line is in the grammar the parser gives what the line denotes, if the culture agrees
on the addresses. -/
theorem parse_eq_ok_of_grammar (h : Grammar line entry) :
    parse ci line = .ok entry ↔ PrefixesAgree ci line := by
  obtain ⟨type, address, payload, hfields, haddress, hpayload⟩ := grammar_iff.mp h
  rw [parse_eq_ok_iff hfields, PatchTypeEnum.parse_word, PrefixesAgree, hfields,
    haddress.parse_eq_ok_iff]
  constructor
  · rintro ⟨patchType, htype, ha, hdata⟩
    cases htype
    exact ⟨ha, hpayload.parseData_eq_ok_iff.mp hdata⟩
  · rintro ⟨ha, hdata⟩
    exact ⟨_, rfl, ha, hpayload.parseData_eq_ok_iff.mpr hdata⟩

end PatchEntry

/-- The parser follows the grammar for exactly these lines: lines of the grammar in which the
culture finds the `!` where it is, and other lines that are refused for want of an arrow, an
address, a type in the enumeration or a third part. -/
theorem followsGrammar_iff (ci : CompareInfo) (line : List Char) :
    FollowsGrammar ci line ↔
      ((∃ entry, Grammar line entry) → PrefixesAgree ci line) ∧
        ((∀ entry, ¬ Grammar line entry) → Refuses ci line) := by
  rw [FollowsGrammar, PatchEntry.parse_refused_iff]
  constructor
  · rintro ⟨haccepts, hrefuses⟩
    refine ⟨?_, hrefuses⟩
    rintro ⟨entry, h⟩
    exact (PatchEntry.parse_eq_ok_of_grammar h).mp ((haccepts entry).mpr h)
  · rintro ⟨hagrees, hrefuses⟩
    refine ⟨fun entry => ⟨fun hparse => ?_, fun h => ?_⟩, hrefuses⟩
    · by_cases hin : ∃ entry, Grammar line entry
      · obtain ⟨entry', h⟩ := hin
        have hparse' := (PatchEntry.parse_eq_ok_of_grammar h).mpr (hagrees ⟨entry', h⟩)
        rw [hparse] at hparse'
        cases hparse'
        exact h
      · obtain ⟨message, herror⟩ :=
          PatchEntry.parse_refused_iff.mpr (hrefuses fun entry h => hin ⟨entry, h⟩)
        rw [hparse] at herror
        cases herror
    · exact (PatchEntry.parse_eq_ok_of_grammar h).mpr (hagrees ⟨entry, h⟩)

/-! ### Scripts -/

/-- The lines that are neither blank nor comments, without tabs and blanks around them. -/
def entryLines (lines : List (List Char)) : List (List Char) :=
  (lines.map (trim isTabOrBlank)).filter fun s => s ≠ [] ∧ s.head? ≠ some '#'

/-- The entries of a script are those of its lines, in their order. -/
def ReadsScript (ci : CompareInfo) (lines : List (List Char)) : Prop :=
  ∀ entries, getHooks ci lines = .ok entries ↔
    List.Forall₂ (fun s entry => PatchEntry.parse ci s = .ok entry) (entryLines lines) entries

/-- The culture finds `#` in front of the line when it is the first character. -/
def CommentAgrees (ci : CompareInfo) (line : List Char) : Prop :=
  trim isTabOrBlank line ≠ [] →
    (ci.isPrefix (trim isTabOrBlank line) ['#'] = true ↔
      (trim isTabOrBlank line).head? = some '#')

variable {lines : List (List Char)}

theorem getHooks_of_skipped
    (h : trim isTabOrBlank line = [] ∨ ci.isPrefix (trim isTabOrBlank line) ['#'] = true) :
    getHooks ci (line :: lines) = getHooks ci lines := by
  rw [getHooks]
  exact if_pos h

theorem getHooks_cons_eq_ok {entries : List PatchEntry}
    (h : ¬ (trim isTabOrBlank line = [] ∨ ci.isPrefix (trim isTabOrBlank line) ['#'] = true)) :
    getHooks ci (line :: lines) = .ok entries ↔ ∃ entry entries',
      PatchEntry.parse ci (trim isTabOrBlank line) = .ok entry ∧
        getHooks ci lines = .ok entries' ∧ entries = entry :: entries' := by
  rw [getHooks, if_neg h]
  simp only [except_bind_eq_ok, pure, Except.pure, Except.ok.injEq]
  constructor
  · rintro ⟨entry, hentry, entries', hentries, rfl⟩
    exact ⟨entry, entries', hentry, hentries, rfl⟩
  · rintro ⟨entry, entries', hentry, hentries, rfl⟩
    exact ⟨entry, hentry, entries', hentries, rfl⟩

theorem entryLines_of_skipped
    (h : trim isTabOrBlank line = [] ∨ (trim isTabOrBlank line).head? = some '#') :
    entryLines (line :: lines) = entryLines lines :=
  List.filter_cons_of_neg (by simpa [or_iff_not_imp_left] using h)

theorem entryLines_of_kept (hne : trim isTabOrBlank line ≠ [])
    (h : (trim isTabOrBlank line).head? ≠ some '#') :
    entryLines (line :: lines) = trim isTabOrBlank line :: entryLines lines :=
  List.filter_cons_of_pos (by simp [hne, h])

/-- A line in front is read as it should be when the culture agrees on it. -/
theorem ReadsScript.cons (h : CommentAgrees ci line) (hlines : ReadsScript ci lines) :
    ReadsScript ci (line :: lines) := by
  intro entries
  by_cases hnil : trim isTabOrBlank line = []
  · rw [getHooks_of_skipped (Or.inl hnil), entryLines_of_skipped (Or.inl hnil)]
    exact hlines entries
  by_cases hcomment : (trim isTabOrBlank line).head? = some '#'
  · rw [getHooks_of_skipped (Or.inr ((h hnil).mpr hcomment)),
      entryLines_of_skipped (Or.inr hcomment)]
    exact hlines entries
  · have hkept : ¬ (trim isTabOrBlank line = [] ∨
        ci.isPrefix (trim isTabOrBlank line) ['#'] = true) := by
      rintro (heq | hmark)
      · exact hnil heq
      · exact hcomment ((h hnil).mp hmark)
    rw [getHooks_cons_eq_ok hkept, entryLines_of_kept hnil hcomment, List.forall₂_cons_left_iff]
    constructor
    · rintro ⟨entry, entries', hentry, hentries, rfl⟩
      exact ⟨entry, entries', hentry, (hlines entries').mp hentries, rfl⟩
    · rintro ⟨entry, entries', hentry, hentries, rfl⟩
      exact ⟨entry, entries', hentry, (hlines entries').mpr hentries, rfl⟩

/-- A line that begins with `#` is no entry. -/
theorem PatchTypeEnum.parse_comment (s : List Char) :
    PatchTypeEnum.parse ('#' :: s) = .error .argument := by
  obtain ⟨t, ht⟩ := exists_trim_cons (p := isWhiteSpace) (x := '#') (by decide) s
  obtain ⟨name, names, hnames⟩ := exists_splitOn_cons (x := '#') (a := ',') (by decide) t
  obtain ⟨name', hname⟩ := exists_trim_cons (p := isWhiteSpace) (x := '#') (by decide) name
  have hlookup : (all.map fun t => (t.word, t.value)).lookup ('#' :: name') = none := by
    simp [all, word, List.lookup_cons]
  rw [PatchTypeEnum.parse, enumParse, ht]
  dsimp only
  rw [if_neg (by decide), enumParseNames, hnames, List.mapM_cons, hname, hlookup]
  rfl

theorem PatchEntry.parse_comment (h : s.head? = some '#') :
    PatchEntry.parse ci s ≠ .ok entry := by
  obtain ⟨t, rfl⟩ : ∃ t, s = '#' :: t := by
    cases s with
    | nil => cases h
    | cons c t =>
      cases h
      exact ⟨t, rfl⟩
  obtain ⟨p, ps, hsplit⟩ := exists_splitPair_cons (x := '#') (a := '-') (b := '>') (by decide) t
  obtain ⟨p', hp⟩ := exists_trim_cons (p := isBlank) (x := '#') (by decide) p
  have hfields : fields ('#' :: t) = ('#' :: p') :: ps.map (trim isBlank) := by
    rw [fields, hsplit, List.map_cons, hp]
  unfold PatchEntry.parse
  rw [hfields]
  cases ps.map (trim isBlank) with
  | nil => exact nofun
  | cons address rest =>
    dsimp only
    rw [PatchTypeEnum.parse_comment]
    exact nofun

/-- A script that is read has an entry for each entry line at most, and for each of them only where
the culture agrees on all lines. -/
theorem length_getHooks {entries : List PatchEntry} (h : getHooks ci lines = .ok entries) :
    entries.length ≤ (entryLines lines).length ∧
      (entries.length = (entryLines lines).length → ∀ line ∈ lines, CommentAgrees ci line) := by
  induction lines generalizing entries with
  | nil =>
    cases h
    exact ⟨le_rfl, by simp⟩
  | cons line lines ih =>
    rw [List.forall_mem_cons]
    by_cases hskip : trim isTabOrBlank line = [] ∨
        ci.isPrefix (trim isTabOrBlank line) ['#'] = true
    · rw [getHooks_of_skipped hskip] at h
      obtain ⟨hle, hagrees⟩ := ih h
      by_cases hout : trim isTabOrBlank line = [] ∨ (trim isTabOrBlank line).head? = some '#'
      · rw [entryLines_of_skipped hout]
        refine ⟨hle, fun heq => ⟨fun hne => ?_, hagrees heq⟩⟩
        exact iff_of_true (hskip.resolve_left hne) (hout.resolve_left hne)
      · obtain ⟨hne, hcomment⟩ := not_or.mp hout
        rw [entryLines_of_kept hne hcomment, List.length_cons]
        exact ⟨by omega, fun heq => by omega⟩
    · obtain ⟨entry, entries', hentry, hentries, rfl⟩ := (getHooks_cons_eq_ok hskip).mp h
      obtain ⟨hle, hagrees⟩ := ih hentries
      obtain ⟨hne, hmark⟩ := not_or.mp hskip
      have hcomment : (trim isTabOrBlank line).head? ≠ some '#' := fun hhead =>
        PatchEntry.parse_comment hhead hentry
      rw [entryLines_of_kept hne hcomment, List.length_cons, List.length_cons]
      refine ⟨by omega, fun heq => ⟨fun _ => ?_, hagrees (by omega)⟩⟩
      exact iff_of_false hmark hcomment

theorem readsScript_nil (ci : CompareInfo) : ReadsScript ci [] := by
  intro entries
  change Except.ok [] = Except.ok entries ↔ List.Forall₂ _ [] entries
  rw [List.forall₂_nil_left_iff, Except.ok.injEq, eq_comm]

/-- A line on which the culture does not agree is read as another number of entries. -/
theorem ReadsScript.commentAgrees (h : ReadsScript ci [line]) : CommentAgrees ci line := by
  intro hne
  constructor
  · intro hmark
    by_contra hcomment
    have hread : getHooks ci [line] = .ok [] := getHooks_of_skipped (Or.inr hmark)
    have hentries := (h []).mp hread
    rw [entryLines_of_kept hne hcomment] at hentries
    cases hentries
  · intro hcomment
    by_contra hmark
    have hentries : List.Forall₂ (fun s entry => PatchEntry.parse ci s = .ok entry)
        (entryLines [line]) [] := by
      rw [entryLines_of_skipped (Or.inr hcomment)]
      exact List.Forall₂.nil
    obtain ⟨entry, entries', -, -, hcons⟩ :=
      (getHooks_cons_eq_ok (not_or.mpr ⟨hne, hmark⟩)).mp ((h []).mpr hentries)
    cases hcons

theorem readsScript_of_agrees (h : ∀ line ∈ lines, CommentAgrees ci line) :
    ReadsScript ci lines := by
  induction lines with
  | nil => exact readsScript_nil ci
  | cons line lines ih =>
    rw [List.forall_mem_cons] at h
    exact ReadsScript.cons h.1 (ih h.2)

/-- For each line the parser follows the grammar exactly under `followsGrammar_iff`'s condition. A
script is read as it should be when the culture agrees on `#` in all its lines; a script of one line
only then, and one whose entry lines are all accepted only then. -/
theorem patchScript_iff (ci : CompareInfo) :
    (∀ line, FollowsGrammar ci line ↔
      ((∃ entry, Grammar line entry) → PrefixesAgree ci line) ∧
        ((∀ entry, ¬ Grammar line entry) → Refuses ci line)) ∧
    (∀ lines, (∀ line ∈ lines, CommentAgrees ci line) → ReadsScript ci lines) ∧
    (∀ line, ReadsScript ci [line] ↔ CommentAgrees ci line) ∧
    ∀ lines entries,
      List.Forall₂ (fun s entry => PatchEntry.parse ci s = .ok entry) (entryLines lines) entries →
        (getHooks ci lines = .ok entries ↔ ∀ line ∈ lines, CommentAgrees ci line) := by
  refine ⟨followsGrammar_iff ci, fun lines => readsScript_of_agrees, fun line =>
    ⟨fun h => h.commentAgrees, fun h => ReadsScript.cons h (readsScript_nil ci)⟩,
    fun lines entries hentries => ⟨fun hread => ?_, fun h => ?_⟩⟩
  · exact (length_getHooks hread).2 hentries.length_eq.symm
  · exact (readsScript_of_agrees h entries).mpr hentries

/-- The number 0 is taken for the type `bl`, and an unknown type makes `Enum.Parse` throw. -/
theorem not_followsGrammar_type :
    (∃ entry, PatchEntry.parse .ordinal "0 -> main+0 -> main+0".toList = .ok entry ∧
      ¬ Grammar "0 -> main+0 -> main+0".toList entry) ∧
    PatchEntry.parse .ordinal "x -> main+0 -> main+0".toList = .error .argument ∧
    ¬ FollowsGrammar .ordinal "0 -> main+0 -> main+0".toList ∧
    ¬ FollowsGrammar .ordinal "x -> main+0 -> main+0".toList := by
  have hzero : PatchEntry.parse .ordinal "0 -> main+0 -> main+0".toList =
      .ok ⟨.offset .main 0, .bl (.offset .main 0)⟩ := by decide
  have hx : PatchEntry.parse .ordinal "x -> main+0 -> main+0".toList = .error .argument := by
    decide
  have hnot : ∀ entry, ¬ Grammar "0 -> main+0 -> main+0".toList entry := by
    intro entry h
    obtain ⟨type, address, payload, hfields, -, -⟩ := grammar_iff.mp h
    have hfirst : (PatchEntry.fields "0 -> main+0 -> main+0".toList).head? = some ['0'] := by
      decide
    rw [hfields] at hfirst
    have hword : ∀ type : PatchTypeEnum, type.word ≠ ['0'] := by
      intro type
      cases type <;> decide
    exact hword type (Option.some.inj hfirst)
  refine ⟨⟨_, hzero, hnot _⟩, hx, fun h => ?_, fun h => ?_⟩
  · exact hnot _ ((h.1 _).mp hzero)
  · obtain ⟨message, herror⟩ := h.2 fun entry hentry => by
      have hparse := (h.1 entry).mpr hentry
      rw [hx] at hparse
      cases hparse
    rw [hx] at herror
    cases herror

end Sp2Module
