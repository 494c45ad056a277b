import Sp2Module.SmHandle
import Mathlib.Data.List.TakeWhile

/-!
# The session with the service manager

libnx counts the users of the session with the service manager. The first one connects, and with the
last one the session is closed. The hook puts the session of the game into the place of this session
without being counted: from then on no user connects, all requests go over the session of the game,
and that session is closed when the count comes back to zero.
-/

namespace Sp2Module.SmHandle

/-- What libnx does that the kernel or the service manager sees. -/
inductive Action where
  | connect
  | register (session : Handle)
  | request (session : Handle) (name : UInt64)
  | close (session : Handle)
deriving DecidableEq, Repr

/-- The statics of `sm.c`, and what has been done up to now. -/
structure Sm where
  smHandle : Handle
  refCnt : UInt64
  smOverrides : List (UInt64 × Handle)
  log : List Action
deriving DecidableEq, Repr

inductive ServiceType where
  | normal
  | override
deriving DecidableEq, Repr

structure Service where
  type : ServiceType
  handle : Handle
deriving DecidableEq, Repr

/-- The loop of `smEncodeName`; the memory at a name ends with a zero. -/
def encodeFrom : ℕ → Bytes → UInt64 → UInt64
  | _, [], nameEncoded => nameEncoded
  | i, b :: name, nameEncoded =>
    if i < 8 ∧ b ≠ 0 then
      encodeFrom (i + 1) name (nameEncoded ||| b.toUInt64 <<< UInt64.ofNat (8 * i))
    else nameEncoded

def smEncodeName (name : Bytes) : UInt64 := encodeFrom 0 name 0

/-- What the kernel answers to a connection, and the service manager to the two requests of an
initialization. -/
structure Answers where
  connect : Result × Handle
  service : Result × Handle
  register : Result
deriving DecidableEq, Repr

namespace Sm

def maxOverrides : ℕ := 32

def start : Sm := ⟨invalidHandle, 0, [], []⟩

/-- `fatalSimple` does not return. -/
def smAddOverrideHandle (name : UInt64) (handle : Handle) (s : Sm) : Option Sm :=
  if s.smOverrides.length = maxOverrides then none
  else some { s with smOverrides := s.smOverrides ++ [(name, handle)] }

def smGetServiceOverride (name : UInt64) (s : Sm) : Handle :=
  match s.smOverrides.find? fun o => o.1 = name with
  | some o => o.2
  | none => invalidHandle

/-- A request over the session; the answer to it is an input. -/
def smGetServiceOriginal (name : UInt64) (answer : Result × Handle) (s : Sm) :
    (Result × Handle) × Sm :=
  (answer, { s with log := s.log ++ [.request s.smHandle name] })

def smGetService (name : Bytes) (answer : Result × Handle) (s : Sm) :
    (Result × Option Service) × Sm :=
  let nameEncoded := smEncodeName name
  let handle := s.smGetServiceOverride nameEncoded
  if handle ≠ invalidHandle then ((0, some ⟨.override, handle⟩), s)
  else
    let ((rc, handle), s) := s.smGetServiceOriginal nameEncoded answer
    ((rc, if rFailed rc then none else some ⟨.normal, handle⟩), s)

/-- `atomicDecrement64` gives the new count. -/
def smExit (s : Sm) : Sm :=
  let refCnt := s.refCnt - 1
  if refCnt = 0 then
    { s with smHandle := invalidHandle, refCnt := refCnt, log := s.log ++ [.close s.smHandle] }
  else { s with refCnt := refCnt }

/-- The first user connects, asks for the service without a name and registers the process where
the service manager wants that. -/
def connect (a : Answers) (s : Sm) : Result × Sm :=
  let (rc, session) := a.connect
  let s : Sm := { s with smHandle := session, log := s.log ++ [.connect] }
  if rFailed rc then (rc, s)
  else
    let ((tmp, _), s) := s.smGetServiceOriginal (smEncodeName []) a.service
    if tmp = 0x415 then (a.register, { s with log := s.log ++ [.register s.smHandle] })
    else (rc, s)

def smInitialize (a : Answers) (s : Sm) : Result × Sm :=
  let s : Sm := { s with refCnt := s.refCnt + 1 }
  if s.smHandle ≠ invalidHandle then (0, s)
  else
    let (rc, s) := s.connect a
    (rc, if rFailed rc then s.smExit else s)

end Sm

/-- A connection of the game through the hook, or a call into `sm.c`. -/
inductive Event where
  | hook (c : Connect)
  | smInitialize (a : Answers)
  | smExit
  | smAddOverrideHandle (name : UInt64) (handle : Handle)
  | smGetService (name : Bytes) (answer : Result × Handle)
deriving DecidableEq, Repr

namespace Sm

def step (s : Sm) : Event → Option Sm
  | .hook c => some { s with smHandle := (svcConnectToNamedPortHook c s.smHandle).2 }
  | .smInitialize a => some (s.smInitialize a).2
  | .smExit => some s.smExit
  | .smAddOverrideHandle name handle => s.smAddOverrideHandle name handle
  | .smGetService name answer => some (s.smGetService name answer).2

/-- A run; it has no result when a call does not return. -/
def run : List Event → Sm → Option Sm
  | [], s => some s
  | e :: events, s => (s.step e).bind (run events)

end Sm

/-! ### The session of the game -/

/-- A connection of the game to the service manager. -/
def Event.Steals : Event → Prop
  | hook c => strcmpEq c.name smName
  | _ => False

def Event.weight : Event → ℤ
  | hook _ => 0
  | smInitialize _ => 1
  | smExit => -1
  | smAddOverrideHandle _ _ => 0
  | smGetService _ _ => 0

/-- The initializations less the exits. -/
def balance (events : List Event) : ℤ := (events.map Event.weight).sum

/-- From the count `n` on, an exit brings the count to zero. -/
def Drains (n : ℤ) (events : List Event) : Prop :=
  ∃ done, done ++ [.smExit] <+: events ∧ n + balance (done ++ [.smExit]) = 0

theorem drains_nil (n : ℤ) : ¬ Drains n [] := by
  rintro ⟨done, hpre, -⟩
  simpa using List.prefix_nil.mp hpre

theorem drains_cons {n : ℤ} {e : Event} {events : List Event} :
    Drains n (e :: events) ↔ (e = .smExit ∧ n = 1) ∨ Drains (n + e.weight) events := by
  constructor
  · rintro ⟨done, hpre, hzero⟩
    cases done with
    | nil =>
      rw [List.nil_append, List.cons_prefix_cons] at hpre
      rw [List.nil_append, balance, List.map_singleton, List.sum_singleton, Event.weight] at hzero
      exact Or.inl ⟨hpre.1.symm, by omega⟩
    | cons e' done =>
      rw [List.cons_append, List.cons_prefix_cons] at hpre
      obtain ⟨rfl, hpre⟩ := hpre
      rw [List.cons_append, balance, List.map_cons, List.sum_cons] at hzero
      exact Or.inr ⟨done, hpre, by rw [balance]; omega⟩
  · rintro (⟨rfl, rfl⟩ | ⟨done, hpre, hzero⟩)
    · refine ⟨[], ?_, rfl⟩
      rw [List.nil_append, List.cons_prefix_cons]
      exact ⟨rfl, List.nil_prefix⟩
    · refine ⟨e :: done, ?_, ?_⟩
      · rw [List.cons_append, List.cons_prefix_cons]
        exact ⟨rfl, hpre⟩
      · rw [List.cons_append, balance, List.map_cons, List.sum_cons]
        rw [balance] at hzero
        omega

namespace Sm

variable {s s' : Sm} {events : List Event} {e : Event}

theorem log_smExit (s : Sm) : s.log <+: s.smExit.log := by
  unfold smExit
  dsimp only
  split_ifs
  · exact List.prefix_append _ _
  · exact List.prefix_refl _

theorem log_connect (a : Answers) (s : Sm) : s.log <+: (s.connect a).2.log := by
  unfold connect smGetServiceOriginal
  dsimp only
  split_ifs
  · exact List.prefix_append _ _
  · rw [List.append_assoc, List.append_assoc]
    exact List.prefix_append _ _
  · rw [List.append_assoc]
    exact List.prefix_append _ _

theorem log_smInitialize (a : Answers) (s : Sm) : s.log <+: (s.smInitialize a).2.log := by
  have hconnect := log_connect a { s with refCnt := s.refCnt + 1 }
  unfold smInitialize
  dsimp only
  split_ifs
  · exact List.prefix_refl _
  · exact hconnect.trans (log_smExit _)
  · exact hconnect

theorem log_smGetService (name : Bytes) (answer : Result × Handle) (s : Sm) :
    s.log <+: (s.smGetService name answer).2.log := by
  unfold smGetService smGetServiceOriginal
  dsimp only
  split_ifs
  · exact List.prefix_refl _
  · exact List.prefix_append _ _
  · exact List.prefix_append _ _

theorem log_step (h : s.step e = some s') : s.log <+: s'.log := by
  cases e with
  | hook c =>
    cases h
    exact List.prefix_refl _
  | smInitialize a =>
    cases h
    exact log_smInitialize a s
  | smExit =>
    cases h
    exact log_smExit s
  | smAddOverrideHandle name handle =>
    unfold step smAddOverrideHandle at h
    dsimp only at h
    split_ifs at h
    cases h
    exact List.prefix_refl _
  | smGetService name answer =>
    cases h
    exact log_smGetService name answer s

/-- What has been done stays done. -/
theorem log_run (h : run events s = some s') : s.log <+: s'.log := by
  induction events generalizing s with
  | nil =>
    cases h
    exact List.prefix_refl _
  | cons e events ih =>
    obtain ⟨s₁, hstep, hrun⟩ := Option.bind_eq_some_iff.mp h
    exact (log_step hstep).trans (ih hrun)

/-- The session is `h`, and the count is `n` in 64-bit arithmetic. -/
def Holds (h : Handle) (n : ℤ) (s : Sm) : Prop :=
  s.smHandle = h ∧ (s.refCnt.toNat : ℤ) = n % 2 ^ 64

/-- Only requests over the session `h` have been added to the log. -/
def OnlyRequests (h : Handle) (s s' : Sm) : Prop :=
  ∃ new, s'.log = s.log ++ new ∧ ∀ a ∈ new, ∃ name, a = .request h name

theorem OnlyRequests.refl (h : Handle) (s : Sm) : OnlyRequests h s s :=
  ⟨[], (List.append_nil _).symm, by simp⟩

theorem OnlyRequests.trans {h : Handle} {s s₁ s' : Sm} (h₁ : OnlyRequests h s s₁)
    (h₂ : OnlyRequests h s₁ s') : OnlyRequests h s s' := by
  obtain ⟨new₁, hlog₁, hnew₁⟩ := h₁
  obtain ⟨new₂, hlog₂, hnew₂⟩ := h₂
  refine ⟨new₁ ++ new₂, by rw [hlog₂, hlog₁, List.append_assoc], fun a ha => ?_⟩
  rcases List.mem_append.mp ha with ha | ha
  · exact hnew₁ a ha
  · exact hnew₂ a ha

section Held

variable {h : Handle} {n : ℤ} (hs : s.Holds h n) (hne : h ≠ invalidHandle)
include hs

theorem Holds.smExit (hlow : -2 ^ 64 < n - 1) (hhigh : n - 1 < 2 ^ 64) :
    (n = 1 ∧ s.smExit.log = s.log ++ [.close h]) ∨
      (n ≠ 1 ∧ s.smExit.Holds h (n - 1) ∧ s.smExit.log = s.log) := by
  obtain ⟨hhandle, hcount⟩ := hs
  have hsub : ((s.refCnt - 1).toNat : ℤ) = (n - 1) % 2 ^ 64 := by
    rw [UInt64.toNat_sub]
    have hone : (1 : UInt64).toNat = 1 := rfl
    have hlt := s.refCnt.toNat_lt
    rw [hone]
    omega
  have hzero : s.refCnt - 1 = 0 ↔ n = 1 := by
    rw [← UInt64.toNat_inj]
    have h0 : (0 : UInt64).toNat = 0 := rfl
    rw [h0]
    omega
  unfold Sm.smExit
  dsimp only
  by_cases hn : n = 1
  · left
    rw [if_pos (hzero.mpr hn), hhandle]
    exact ⟨hn, rfl⟩
  · right
    rw [if_neg (mt hzero.mp hn)]
    exact ⟨hn, ⟨hhandle, hsub⟩, rfl⟩

include hne

theorem Holds.smInitialize (a : Answers) :
    s.smInitialize a = (0, { s with refCnt := s.refCnt + 1 }) ∧
      (s.smInitialize a).2.Holds h (n + 1) := by
  obtain ⟨hhandle, hcount⟩ := hs
  have hactive : s.smInitialize a = (0, { s with refCnt := s.refCnt + 1 }) := by
    unfold Sm.smInitialize
    exact if_pos (by rw [hhandle]; exact hne)
  rw [hactive]
  refine ⟨rfl, hhandle, ?_⟩
  rw [UInt64.toNat_add]
  have hone : (1 : UInt64).toNat = 1 := rfl
  rw [hone]
  omega

/-- A step closes the session or holds it and makes no more than requests over it. -/
theorem Holds.step (hquiet : ¬ e.Steals) (hlow : -2 ^ 64 < n - 1) (hhigh : n - 1 < 2 ^ 64)
    (hstep : s.step e = some s') :
    ((e = .smExit ∧ n = 1) ∧ s'.log = s.log ++ [.close h]) ∨
      (¬ (e = .smExit ∧ n = 1) ∧ s'.Holds h (n + e.weight) ∧ OnlyRequests h s s') := by
  cases e with
  | hook c =>
    cases hstep
    have hkeep : (svcConnectToNamedPortHook c s.smHandle).2 = s.smHandle := by
      unfold svcConnectToNamedPortHook
      dsimp only
      rw [if_neg (show ¬ strcmpEq c.name smName from hquiet)]
    refine Or.inr ⟨by simp, ⟨hkeep.trans hs.1, ?_⟩, .refl h s⟩
    rw [Event.weight, add_zero]
    exact hs.2
  | smInitialize a =>
    cases hstep
    obtain ⟨heq, hholds⟩ := hs.smInitialize hne a
    refine Or.inr ⟨by simp, hholds, ?_⟩
    rw [heq]
    exact .refl h s
  | smExit =>
    cases hstep
    rcases hs.smExit hlow hhigh with ⟨hn, hlog⟩ | ⟨hn, hholds, hlog⟩
    · exact Or.inl ⟨⟨rfl, hn⟩, hlog⟩
    · refine Or.inr ⟨fun hand => hn hand.2, hholds, ?_⟩
      exact ⟨[], by rw [hlog, List.append_nil], by simp⟩
  | smAddOverrideHandle name handle =>
    unfold Sm.step smAddOverrideHandle at hstep
    dsimp only at hstep
    split_ifs at hstep
    cases hstep
    refine Or.inr ⟨by simp, ⟨hs.1, ?_⟩, .refl h s⟩
    rw [Event.weight, add_zero]
    exact hs.2
  | smGetService name answer =>
    cases hstep
    have hweight : n + (Event.smGetService name answer).weight = n := add_zero n
    refine Or.inr ⟨by simp, ?_⟩
    rw [hweight]
    unfold Sm.smGetService smGetServiceOriginal
    dsimp only
    split_ifs
    · exact ⟨hs, .refl h s⟩
    all_goals
      refine ⟨⟨hs.1, hs.2⟩, [.request s.smHandle (smEncodeName name)], rfl, ?_⟩
      intro a ha
      rw [List.mem_singleton.mp ha, hs.1]
      exact ⟨_, rfl⟩

/-- The session is closed exactly in the runs that bring the count to zero; in the others it serves
every request and nobody connects. -/
theorem Holds.run (hquiet : ∀ e ∈ events, ¬ e.Steals) (hlow : -2 ^ 64 < n - events.length)
    (hhigh : n + events.length ≤ 2 ^ 64) (hrun : run events s = some s') :
    ((∃ new, s'.log = s.log ++ new ∧ .close h ∈ new) ↔ Drains n events) ∧
      (¬ Drains n events → s'.smHandle = h ∧ OnlyRequests h s s') := by
  induction events generalizing s n with
  | nil =>
    obtain rfl : s = s' := Option.some.inj hrun
    have hnot := drains_nil n
    refine ⟨⟨?_, fun hd => absurd hd hnot⟩, fun _ => ⟨hs.1, .refl h s⟩⟩
    rintro ⟨new, hnew, hmem⟩
    rw [List.self_eq_append_right.mp hnew] at hmem
    cases hmem
  | cons e events ih =>
    obtain ⟨s₁, hstep, hrun⟩ := Option.bind_eq_some_iff.mp hrun
    rw [List.length_cons] at hlow hhigh
    push_cast at hlow hhigh
    have hw : -1 ≤ e.weight ∧ e.weight ≤ 1 := by cases e <;> simp [Event.weight]
    rw [drains_cons]
    rcases hs.step hne (hquiet e List.mem_cons_self) (by omega) (by omega) hstep with
      ⟨hlast, hlog⟩ | ⟨hnot, hholds, honly⟩
    · -- the session is closed here and stays closed in the log
      refine ⟨⟨fun _ => Or.inl hlast, fun _ => ?_⟩, fun hd => absurd (Or.inl hlast) hd⟩
      obtain ⟨rest, hrest⟩ := log_run hrun
      refine ⟨.close h :: rest, ?_, List.mem_cons_self⟩
      rw [← hrest, hlog, List.append_assoc]
      rfl
    · rw [or_iff_right hnot]
      obtain ⟨hclosed, hserved⟩ := ih hholds (fun e he => hquiet e (List.mem_cons_of_mem _ he))
        (by omega) (by omega) hrun
      obtain ⟨new₁, hlog₁, hnew₁⟩ := honly
      refine ⟨?_, fun hd => ?_⟩
      · rw [← hclosed]
        constructor
        · rintro ⟨new, hlog, hmem⟩
          obtain ⟨rest, hrest⟩ := log_run hrun
          refine ⟨rest, hrest.symm, ?_⟩
          rw [← hrest, hlog₁, List.append_assoc] at hlog
          rw [← List.append_cancel_left hlog] at hmem
          rcases List.mem_append.mp hmem with hmem | hmem
          · obtain ⟨name, hname⟩ := hnew₁ _ hmem
            cases hname
          · exact hmem
        · rintro ⟨new, hlog, hmem⟩
          exact ⟨new₁ ++ new, by rw [hlog, hlog₁, List.append_assoc],
            List.mem_append_right _ hmem⟩
      · obtain ⟨hhandle, hrest⟩ := hserved hd
        exact ⟨hhandle, OnlyRequests.trans ⟨new₁, hlog₁, hnew₁⟩ hrest⟩

end Held

end Sm

/-- The part of a name that is encoded. -/
def nameKey (name : Bytes) : Bytes := (name.take 8).takeWhile (· ≠ 0)

/-- A byte is put behind `i` others. -/
theorem toNat_or_byte {x : UInt64} {i : ℕ} (b : UInt8) (hi : i < 8) (h : x.toNat < 256 ^ i) :
    (x ||| b.toUInt64 <<< UInt64.ofNat (8 * i)).toNat = x.toNat + 256 ^ i * b.toNat := by
  have hpow : 256 ^ i = 2 ^ (8 * i) := by
    rw [pow_mul, show (2 : ℕ) ^ 8 = 256 from rfl]
  have hbyte := b.toNat_lt
  have hamount : (UInt64.ofNat (8 * i)).toNat % 64 = 8 * i := by
    rw [UInt64.toNat_ofNat']
    omega
  have hfits : 2 ^ (8 * i) * b.toNat < 2 ^ 64 := by
    calc 2 ^ (8 * i) * b.toNat
        < 2 ^ (8 * i) * 2 ^ 8 := Nat.mul_lt_mul_of_pos_left hbyte (Nat.two_pow_pos _)
      _ = 2 ^ (8 * i + 8) := (pow_add 2 (8 * i) 8).symm
      _ ≤ 2 ^ 64 := Nat.pow_le_pow_right (by omega) (by omega)
  rw [hpow] at h ⊢
  rw [UInt64.toNat_or, UInt64.toNat_shiftLeft, hamount, UInt8.toNat_toUInt64, Nat.shiftLeft_eq,
    mul_comm b.toNat, Nat.mod_eq_of_lt hfits, Nat.or_comm, ← Nat.two_pow_add_eq_or_of_lt h,
    Nat.add_comm]
theorem toNat_encodeFrom {i : ℕ} {name : Bytes} {nameEncoded : UInt64} (hi : i ≤ 8)
    (h : nameEncoded.toNat < 256 ^ i) : (encodeFrom i name nameEncoded).toNat =
      nameEncoded.toNat + 256 ^ i * leValue ((name.take (8 - i)).takeWhile (· ≠ 0)) := by
  induction name generalizing i nameEncoded with
  | nil => simp [encodeFrom, leValue]
  | cons b name ih =>
    rw [encodeFrom]
    by_cases hlast : i = 8
    · subst hlast
      simp [leValue]
    obtain ⟨j, hj⟩ : ∃ j, 8 - i = j + 1 := ⟨7 - i, by omega⟩
    rw [hj, List.take_succ_cons]
    by_cases hb : b = 0
    · rw [if_neg (by simp [hb]), List.takeWhile_cons_of_neg (by simp [hb])]
      simp [leValue]
    rw [if_pos ⟨by omega, hb⟩, List.takeWhile_cons_of_pos (by simpa using hb), leValue]
    have hor := toNat_or_byte b (by omega) h
    have hbyte : 256 ^ i * b.toNat ≤ 256 ^ i * 255 :=
      Nat.mul_le_mul_left _ (Nat.le_of_lt_succ b.toNat_lt)
    have hpow : 256 ^ (i + 1) = 256 ^ i * 256 := pow_succ 256 i
    have hj' : 8 - (i + 1) = j := by omega
    rw [ih (by omega) (by rw [hor]; omega), hor, hj', hpow, Nat.mul_assoc, Nat.add_assoc,
      ← Nat.mul_add]

theorem toNat_smEncodeName (name : Bytes) : (smEncodeName name).toNat = leValue (nameKey name) := by
  have hzero : (0 : UInt64).toNat < 256 ^ 0 := by decide
  rw [smEncodeName, toNat_encodeFrom (Nat.zero_le 8) hzero, nameKey, pow_zero, Nat.one_mul]
  exact Nat.zero_add _

/-- Without zeros no two strings of bytes have the same value. -/
theorem eq_of_leValue_eq {l l' : Bytes} (hl : ∀ b ∈ l, b ≠ 0) (hl' : ∀ b ∈ l', b ≠ 0)
    (h : leValue l = leValue l') : l = l' := by
  have hpos : ∀ {b : UInt8}, b ≠ 0 → 0 < b.toNat := fun hb =>
    Nat.pos_of_ne_zero fun h0 => hb (UInt8.toNat_inj.mp h0)
  induction l generalizing l' with
  | nil =>
    cases l' with
    | nil => rfl
    | cons b l' =>
      have hb := hpos (hl' b List.mem_cons_self)
      simp only [leValue] at h
      omega
  | cons b l ih =>
    cases l' with
    | nil =>
      have hb := hpos (hl b List.mem_cons_self)
      simp only [leValue] at h
      omega
    | cons b' l' =>
      have hb := b.toNat_lt
      have hb' := b'.toNat_lt
      simp only [leValue] at h
      have hhead : b = b' := UInt8.toNat_inj.mp (by omega)
      have htail : leValue l = leValue l' := by omega
      rw [hhead, ih (fun x hx => hl x (List.mem_cons_of_mem b hx))
        (fun x hx => hl' x (List.mem_cons_of_mem b' hx)) htail]

theorem ne_zero_of_mem_nameKey {name : Bytes} (b : UInt8) (h : b ∈ nameKey name) : b ≠ 0 := by
  simpa using List.mem_takeWhile_imp h

/-- Names that differ in their first eight bytes are encoded differently. -/
theorem smEncodeName_inj {name name' : Bytes} :
    smEncodeName name = smEncodeName name' ↔ nameKey name = nameKey name' := by
  rw [← UInt64.toNat_inj, toNat_smEncodeName, toNat_smEncodeName]
  exact ⟨eq_of_leValue_eq ne_zero_of_mem_nameKey ne_zero_of_mem_nameKey, congrArg leValue⟩

/-- The override that is registered. -/
def Event.registers : Event → Option (UInt64 × Handle)
  | smAddOverrideHandle name handle => some (name, handle)
  | _ => none

def registered (events : List Event) : List (UInt64 × Handle) := events.filterMap Event.registers

namespace Sm

variable {s s' : Sm} {events : List Event} {e : Event}

theorem smOverrides_smExit (s : Sm) : s.smExit.smOverrides = s.smOverrides := by
  unfold smExit
  dsimp only
  split_ifs <;> rfl

theorem smOverrides_smInitialize (a : Answers) (s : Sm) :
    (s.smInitialize a).2.smOverrides = s.smOverrides := by
  have hconnect : ∀ s : Sm, (s.connect a).2.smOverrides = s.smOverrides := by
    intro s
    unfold connect smGetServiceOriginal
    dsimp only
    split_ifs <;> rfl
  unfold smInitialize
  dsimp only
  split_ifs
  · rfl
  · rw [smOverrides_smExit, hconnect]
  · rw [hconnect]

theorem smOverrides_smGetService (name : Bytes) (answer : Result × Handle) (s : Sm) :
    (s.smGetService name answer).2.smOverrides = s.smOverrides := by
  unfold smGetService smGetServiceOriginal
  dsimp only
  split_ifs <;> rfl

/-- A step that registers nothing always returns. -/
theorem step_of_registers_eq_none (h : e.registers = none) :
    ∃ s', s.step e = some s' ∧ s'.smOverrides = s.smOverrides := by
  cases e with
  | hook c => exact ⟨_, rfl, rfl⟩
  | smInitialize a => exact ⟨_, rfl, smOverrides_smInitialize a s⟩
  | smExit => exact ⟨_, rfl, smOverrides_smExit s⟩
  | smAddOverrideHandle name handle => cases h
  | smGetService name answer => exact ⟨_, rfl, smOverrides_smGetService name answer s⟩

theorem step_of_registers_eq_some {o : UInt64 × Handle} (h : e.registers = some o) :
    s.step e = if s.smOverrides.length = maxOverrides then none
      else some { s with smOverrides := s.smOverrides ++ [o] } := by
  cases e with
  | smAddOverrideHandle name handle =>
    rw [← Option.some.inj h]
    rfl
  | hook c => cases h
  | smInitialize a => cases h
  | smExit => cases h
  | smGetService name answer => cases h

/-- The overrides are those that have been registered, and a run ends early with the first one that
has no place. -/
theorem smOverrides_run (hle : s.smOverrides.length ≤ maxOverrides) :
    (run events s = none ↔
      maxOverrides < s.smOverrides.length + (registered events).length) ∧
    ∀ s', run events s = some s' → s'.smOverrides = s.smOverrides ++ registered events := by
  induction events generalizing s with
  | nil =>
    refine ⟨⟨fun h => (by cases h), fun h => ?_⟩, fun s' h => ?_⟩
    · simp only [registered, List.filterMap_nil, List.length_nil] at h
      omega
    · rw [← Option.some.inj h]
      exact (List.append_nil _).symm
  | cons e events ih =>
    cases hreg : e.registers with
    | none =>
      have hcons : registered (e :: events) = registered events :=
        List.filterMap_cons_none hreg
      obtain ⟨s₁, hstep, hsame⟩ := step_of_registers_eq_none (s := s) hreg
      rw [run, hstep, Option.bind_some, hcons, ← hsame]
      exact ih (by rw [hsame]; exact hle)
    | some o =>
      have hcons : registered (e :: events) = o :: registered events :=
        List.filterMap_cons_some hreg
      rw [run, step_of_registers_eq_some hreg, hcons, List.length_cons]
      by_cases hfull : s.smOverrides.length = maxOverrides
      · rw [if_pos hfull, Option.bind_none]
        exact ⟨⟨fun _ => (by omega), fun _ => rfl⟩, fun s' h => (by cases h)⟩
      · have hlength : (s.smOverrides ++ [o]).length = s.smOverrides.length + 1 :=
          List.length_append
        obtain ⟨hnone, hoverrides⟩ := ih (s := { s with smOverrides := s.smOverrides ++ [o] })
          (by rw [hlength]; omega)
        rw [if_neg hfull, Option.bind_some, hnone]
        refine ⟨?_, fun s' h => ?_⟩
        · rw [hlength]
          omega
        · rw [hoverrides s' h, List.append_assoc]
          rfl

/-- Where services are registered by their names, in whatever else happens, the first registration
of a name counts, as long as there are no more than 32. It is for all names with the same first
eight bytes, and it makes no difference when its handle is zero. -/
theorem smGetService_run {services : List (Bytes × Handle)}
    (hreg : registered events = services.map fun r => (smEncodeName r.1, r.2)) :
    (run events start = none ↔ 32 < services.length) ∧
    ∀ s, run events start = some s → ∀ name answer,
      let first := services.find? fun r => nameKey r.1 = nameKey name
      (∀ r, first = some r → r.2 ≠ invalidHandle →
        s.smGetService name answer = ((0, some ⟨.override, r.2⟩), s)) ∧
      ((∀ r, first = some r → r.2 = invalidHandle) → s.smGetService name answer =
        ((answer.1, if rFailed answer.1 then none else some ⟨.normal, answer.2⟩),
          { s with log := s.log ++ [.request s.smHandle (smEncodeName name)] })) := by
  have hstart : start.smOverrides.length ≤ maxOverrides := Nat.zero_le _
  obtain ⟨hnone, hrun⟩ := @smOverrides_run start events hstart
  refine ⟨?_, fun s hs name answer => ?_⟩
  · rw [hnone, hreg, List.length_map]
    simp [start, maxOverrides]
  · have hover : s.smGetServiceOverride (smEncodeName name) =
        ((services.find? fun r => nameKey r.1 = nameKey name).map (·.2)).getD invalidHandle := by
      have hfun : (fun r : Bytes × Handle => decide (smEncodeName r.1 = smEncodeName name)) =
          fun r => decide (nameKey r.1 = nameKey name) := by
        funext r
        rw [decide_eq_decide]
        exact smEncodeName_inj
      rw [smGetServiceOverride, hrun s hs, hreg]
      simp only [start, List.nil_append, List.find?_map, Function.comp_def, hfun]
      cases services.find? fun r => nameKey r.1 = nameKey name <;> rfl
    dsimp only
    constructor
    · intro r hr hne
      rw [hr] at hover
      unfold smGetService
      dsimp only
      rw [hover]
      exact if_pos hne
    · intro hzero
      have hinvalid : s.smGetServiceOverride (smEncodeName name) = invalidHandle := by
        rw [hover]
        cases hfirst : services.find? fun r => nameKey r.1 = nameKey name with
        | none => rfl
        | some r => exact hzero r hfirst
      unfold smGetService
      dsimp only
      rw [hinvalid]
      rfl

end Sm

/-- Of two registrations that agree in their first eight bytes the first one is found. -/
theorem smGetService_run_twice : ∃ s,
    Sm.run [.smAddOverrideHandle (smEncodeName (asciiGetBytes "fsp-srv-1")) 3,
      .smAddOverrideHandle (smEncodeName (asciiGetBytes "fsp-srv-2")) 4] .start = some s ∧
    ∀ answer, s.smGetService (asciiGetBytes "fsp-srv-3") answer =
      ((0, some ⟨.override, 3⟩), s) := by
  have hreg : registered [.smAddOverrideHandle (smEncodeName (asciiGetBytes "fsp-srv-1")) 3,
      .smAddOverrideHandle (smEncodeName (asciiGetBytes "fsp-srv-2")) 4] =
      [(asciiGetBytes "fsp-srv-1", 3), (asciiGetBytes "fsp-srv-2", 4)].map
        fun r => (smEncodeName r.1, r.2) := rfl
  have hrun := (Sm.smGetService_run hreg).2
  refine ⟨_, rfl, fun answer => ?_⟩
  exact (hrun _ rfl _ answer).1 (asciiGetBytes "fsp-srv-1", 3) (by decide) (by decide)

end Sp2Module.SmHandle
