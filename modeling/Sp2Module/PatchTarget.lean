import Sp2Module.PatchGrammar

/-!
# Patches that name a symbol

The target of a patch may be any symbol of the listing, by its name behind a `!`. The line is split
at its arrows before the name is looked at, so a name with an arrow in it is never found.
-/

namespace Sp2Module

/-- The payloads of the types that take an address. -/
def PatchTypeEnum.withTarget : PatchTypeEnum → Option (MemAddress → PatchData)
  | bl => some .bl
  | b => some .b
  | ptr => some .ptr
  | data => none

/-- `TYPE -> main+0x0 -> !name`. -/
def symbolLine (type : PatchTypeEnum) (name : List Char) : List Char :=
  type.word ++ [' '] ++ '-' :: '>' :: (" main+0x0 ".toList ++ '-' :: '>' :: ' ' :: '!' :: name)

/-- The line is read as an entry with the symbol for its target, and the symbol is found at its
first place in the listing. -/
structure Targets (ci : CompareInfo) (e : ExeFS) (symbols : Symbols) (type : PatchTypeEnum)
    (name : List Char) : Prop where
  parsed : ∃ entry payload, type.withTarget = some payload ∧
    PatchEntry.parse ci (symbolLine type name) = .ok entry ∧
      entry.data = payload (.symbol (String.ofList name))
  resolved : ∃ before addr after, symbols = before ++ (String.ofList name, addr) :: after ∧
    (∀ s ∈ before, s.1 ≠ String.ofList name) ∧
      (MemAddress.symbol (String.ofList name)).getAddress e symbols =
        .ok (e.getNsoAddress .sdk + addr.toNat)

variable {ci : CompareInfo} {e : ExeFS} {symbols : Symbols} {type : PatchTypeEnum}
  {name : List Char}

/-- A listed symbol is found where it is listed first. -/
theorem exists_getAddress {symbol : String} (h : ∃ addr, (symbol, addr) ∈ symbols) :
    ∃ before addr after, symbols = before ++ (symbol, addr) :: after ∧
      (∀ s ∈ before, s.1 ≠ symbol) ∧ (MemAddress.symbol symbol).getAddress e symbols =
        .ok (e.getNsoAddress .sdk + addr.toNat) := by
  obtain ⟨addr, hmem⟩ := h
  cases hfind : symbols.find? fun sym => sym.1 == symbol with
  | none =>
    have hnone := List.find?_eq_none.mp hfind _ hmem
    simp at hnone
  | some sym =>
    obtain ⟨hsym, before, after, heq, hbefore⟩ := List.find?_eq_some_iff_append.mp hfind
    have hname : sym.1 = symbol := by simpa using hsym
    refine ⟨before, sym.2, after, by rw [← hname]; exact heq, fun s hs => ?_, ?_⟩
    · simpa using hbefore s hs
    · simp only [MemAddress.getAddress, hfind]

/-- A blank begins no arrow and ends none. -/
theorem fields_symbolLine (type : PatchTypeEnum) (name : List Char) :
    PatchEntry.fields (symbolLine type name) = type.word :: "main+0x0".toList ::
      (splitPair '-' '>' (' ' :: '!' :: name)).map (trim isBlank) := by
  have hword : ¬ ['-', '>'] <:+: type.word ++ [' '] ∧
      trim isBlank (type.word ++ [' ']) = type.word := by
    cases type <;> decide
  have haddress : ¬ ['-', '>'] <:+: " main+0x0 ".toList ∧
      trim isBlank " main+0x0 ".toList = "main+0x0".toList := by decide
  rw [PatchEntry.fields, symbolLine, splitPair_append (by decide) hword.1,
    splitPair_append (by decide) haddress.1, List.map_cons, List.map_cons, hword.2, haddress.2]

theorem arrow_infix_mark : ['-', '>'] <:+: ' ' :: '!' :: name ↔ ['-', '>'] <:+: name :=
  pair_infix_append_left (q := [' ', '!']) (by decide)

/-- Without an arrow in the name there is one part behind the address, the name behind its mark. -/
theorem fields_symbolLine_of_no_arrow (hname : Bare isBlank name)
    (h : ¬ ['-', '>'] <:+: name) : PatchEntry.fields (symbolLine type name) =
      [type.word, "main+0x0".toList, '!' :: name] := by
  have htrim : trim isBlank (' ' :: '!' :: name) = '!' :: name := by
    have hbare : Bare isBlank ('!' :: name) := by
      refine ⟨fun x l hx => ?_, fun x l hx => ?_⟩
      · cases hx
        rfl
      · cases l with
        | nil =>
          cases hx
          rfl
        | cons y l =>
          cases hx
          exact hname.last x l rfl
    have happend := hbare.trim_append (u := [' ']) (v := []) (by simp [isBlank]) (by simp)
    rwa [List.append_nil] at happend
  rw [fields_symbolLine, splitPair_of_not_infix fun harrow => h (arrow_infix_mark.mp harrow),
    List.map_singleton, htrim]

/-- A payload that is an address is all there is behind the second arrow. -/
theorem parseData_eq_ok_iff {payload : MemAddress → PatchData} {line : List Char}
    {rest : List (List Char)} {d : PatchData} (h : type.withTarget = some payload) :
    PatchEntry.parseData ci line type.value rest = .ok d ↔
      ∃ s a, rest = [s] ∧ MemAddress.parse ci s = .ok a ∧ d = payload a := by
  have hmap : ∀ s, rest = [s] → PatchEntry.parseData ci line type.value rest =
      (MemAddress.parse ci s).map payload := by
    rintro s rfl
    unfold PatchEntry.parseData
    rw [PatchTypeEnum.ofValue_value]
    cases type <;> cases h <;> rfl
  constructor
  · intro hdata
    by_cases hrest : ∃ s, rest = [s]
    · obtain ⟨s, hs⟩ := hrest
      rw [hmap s hs] at hdata
      obtain ⟨a, ha, rfl⟩ := except_map_eq_ok.mp hdata
      exact ⟨s, a, hs, ha, rfl⟩
    · unfold PatchEntry.parseData at hdata
      rw [PatchTypeEnum.ofValue_value] at hdata
      split at hdata
      case h_1 => cases hdata
      case h_6 => cases hdata
      -- the four types with one part behind the address
      all_goals exact absurd ⟨_, rfl⟩ hrest
  · rintro ⟨s, a, hs, ha, rfl⟩
    rw [hmap s hs, ha]
    rfl

/-- Whatever the culture makes of it, `main+0x0` is read as some address. -/
theorem exists_parse_main (ci : CompareInfo) :
    ∃ a, MemAddress.parse ci "main+0x0".toList = .ok a := by
  cases hmark : ci.isPrefix "main+0x0".toList ['!'] with
  | true => exact ⟨_, MemAddress.parse_of_prefix hmark⟩
  | false =>
    have hmatch : addressMatch "main+0x0".toList = some (.main, "0x0".toList) := by decide
    have hoff : parseOffset "0x0".toList = .ok 0 := by decide
    refine ⟨.offset .main 0, ?_⟩
    rw [MemAddress.parse_of_addressMatch hmark hmatch, hoff]
    rfl

theorem parse_mark_iff : MemAddress.parse ci ('!' :: name) = .ok (.symbol (String.ofList name)) ↔
    ci.isPrefix ('!' :: name) ['!'] = true := by
  rw [(AddressText.symbol name).parse_eq_ok_iff, PrefixAgrees]
  exact iff_true_right rfl

theorem withTarget_injective {payload : MemAddress → PatchData} (h : type.withTarget = some payload)
    {a a' : MemAddress} (heq : payload a = payload a') : a = a' := by
  cases type <;> cases h <;> cases heq <;> rfl

/-- A listed symbol can be the target exactly when there is no arrow in its name and the culture
finds the mark in front of it. -/
theorem targets_iff (ci : CompareInfo) (e : ExeFS) {symbols : Symbols} {name : List Char}
    (hlisted : ∃ addr, (String.ofList name, addr) ∈ symbols) (hname : Bare isBlank name)
    {type : PatchTypeEnum} (htype : type ≠ .data) :
    Targets ci e symbols type name ↔
      ¬ ['-', '>'] <:+: name ∧ ci.isPrefix ('!' :: name) ['!'] = true := by
  obtain ⟨payload, hpayload⟩ : ∃ payload, type.withTarget = some payload := by
    cases type
    · exact ⟨_, rfl⟩
    · exact ⟨_, rfl⟩
    · exact absurd rfl htype
    · exact ⟨_, rfl⟩
  constructor
  · rintro ⟨⟨entry, payload', hpayload', hparse, hdata⟩, -⟩
    obtain ⟨patchType, hpatch, -, hrest⟩ :=
      (PatchEntry.parse_eq_ok_iff (fields_symbolLine type name)).mp hparse
    rw [PatchTypeEnum.parse_word] at hpatch
    cases hpatch
    obtain ⟨s, a, hsplit, ha, hpay⟩ := (parseData_eq_ok_iff hpayload').mp hrest
    have harrow : ¬ ['-', '>'] <:+: name := by
      obtain ⟨p, hp, ⟨hl, -⟩ | ⟨l', -, hl'⟩⟩ := exists_splitPair '-' '>' (' ' :: '!' :: name)
      · rwa [← arrow_infix_mark, hl]
      · rw [hl', List.map_cons] at hsplit
        have htail := List.map_eq_nil_iff.mp (List.cons.inj hsplit).2
        exact absurd htail (splitPair_ne_nil _ _ _)
    have hfields : PatchEntry.fields (symbolLine type name) = _ :=
      fields_symbolLine_of_no_arrow hname harrow
    rw [fields_symbolLine, hsplit] at hfields
    cases hfields
    rw [hpay] at hdata
    rw [withTarget_injective hpayload' hdata] at ha
    exact ⟨harrow, parse_mark_iff.mp ha⟩
  · rintro ⟨harrow, hmark⟩
    obtain ⟨a, ha⟩ := exists_parse_main ci
    refine ⟨⟨⟨a, payload (.symbol (String.ofList name))⟩, payload, hpayload, ?_, rfl⟩,
      exists_getAddress hlisted⟩
    rw [PatchEntry.parse_eq_ok_iff (fields_symbolLine_of_no_arrow hname harrow)]
    exact ⟨_, PatchTypeEnum.parse_word type, ha,
      (parseData_eq_ok_iff hpayload).mpr ⟨_, _, rfl, parse_mark_iff.mpr hmark, rfl⟩⟩

/-- A conversion operator, with a blank in its name, as the target of a pointer. -/
theorem targets_operatorBool :
    Targets .ordinal (.ofMain (Nso.createNso [] [] [] 0)) [("T::operator bool()", 0x10)] .ptr
      "T::operator bool()".toList := by
  have hname : Bare isBlank "T::operator bool()".toList := by
    rw [show "T::operator bool()".toList = trim isBlank "T::operator bool()".toList by decide]
    exact bare_trim isBlank _
  exact (targets_iff .ordinal _ ⟨0x10, by decide⟩ hname (by decide)).mpr
    ⟨by decide, by decide⟩

/-- The arrow operator is listed, and a branch to it is refused. -/
theorem not_targets_operatorArrow :
    PatchEntry.parse .ordinal (symbolLine .b "T::operator->()".toList) =
      .error (PatchEntry.invalidEntry (symbolLine .b "T::operator->()".toList)) ∧
    ¬ Targets .ordinal (.ofMain (Nso.createNso [] [] [] 0)) [("T::operator->()", 0x10)] .b
      "T::operator->()".toList := by
  have hparse : PatchEntry.parse .ordinal (symbolLine .b "T::operator->()".toList) =
      .error (PatchEntry.invalidEntry (symbolLine .b "T::operator->()".toList)) := by decide
  refine ⟨hparse, ?_⟩
  rintro ⟨⟨entry, payload, -, hok, -⟩, -⟩
  rw [hparse] at hok
  cases hok

end Sp2Module
