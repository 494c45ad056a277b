import Sp2Module.HidInput
import Mathlib.Algebra.Order.Ring.Nat
import Mathlib.Order.Nat

/-!
# What is held after a run

With time stamps that are not negative as signed numbers, what the statics hold depends only on the
entries that the scans have found: those of the last scan count for each device that has shown no
newer one before.
-/

namespace Sp2Module.Hid

section taken

variable {α : Type} [Zero α] {t : Taken α} {e : Entry α} {es : List (Entry α)}

/-- The value of the last entry, where no other one is newer. -/
def newestOf (es : List (Entry α)) : α :=
  Newest.newest (fun e => e.timestamp.toNat) Entry.value 0 es

def InTime (es : List (Entry α)) : Prop := ∀ e ∈ es, e.timestamp.toNat < 2 ^ 63

def Taken.view (t : Taken α) : ℕ × α := (t.timestamp.toNat, t.value)

theorem sub_toInt_nonneg_iff {a b : BitVec 64} (ha : a.toNat < 2 ^ 63) (hb : b.toNat < 2 ^ 63) :
    0 ≤ (a - b).toInt ↔ b.toNat ≤ a.toNat := by
  rw [BitVec.toInt_sub, BitVec.toInt_eq_toNat_of_lt (by omega),
    BitVec.toInt_eq_toNat_of_lt (by omega), Int.bmod_eq_of_le (by omega) (by omega)]
  omega

theorem Taken.view_scan (ht : t.timestamp.toNat < 2 ^ 63) (he : e.timestamp.toNat < 2 ^ 63) :
    (t.scan e).view = Newest.take (fun e => e.timestamp.toNat) Entry.value 0 t.view e ∧
      (t.scan e).timestamp.toNat < 2 ^ 63 := by
  have hiff := sub_toInt_nonneg_iff he ht
  have htake : Newest.take (fun e => e.timestamp.toNat) Entry.value 0 t.view e =
      if t.timestamp.toNat ≤ e.timestamp.toNat then (e.timestamp.toNat, e.value)
      else (t.timestamp.toNat, 0) := rfl
  rw [htake, scan]
  by_cases hle : t.timestamp.toNat ≤ e.timestamp.toNat
  · rw [if_pos (hiff.mpr hle), if_pos hle]
    exact ⟨rfl, he⟩
  · rw [if_neg (fun h => hle (hiff.mp h)), if_neg hle]
    exact ⟨rfl, ht⟩

theorem Taken.view_foldl (ht : t.timestamp.toNat < 2 ^ 63) (h : InTime es) :
    (es.foldl Taken.scan t).view =
      es.foldl (Newest.take (fun e => e.timestamp.toNat) Entry.value 0) t.view := by
  induction es generalizing t with
  | nil => rfl
  | cons e es ih =>
    obtain ⟨he, hes⟩ := List.forall_mem_cons.mp h
    obtain ⟨hview, hbound⟩ := view_scan ht he
    rw [List.foldl_cons, List.foldl_cons, ih hbound hes, hview]

theorem Taken.value_foldl (h : InTime es) :
    (es.foldl Taken.scan (⟨0, 0⟩ : Taken α)).value = newestOf es := by
  have hzero : (0 : BitVec 64).toNat < 2 ^ 63 := by decide
  have hview : (es.foldl Taken.scan (⟨0, 0⟩ : Taken α)).view =
      (Newest.latest (fun e => e.timestamp.toNat) es, newestOf es) :=
    (view_foldl hzero h).trans (Newest.foldl_take es)
  exact congrArg Prod.snd hview

end taken

namespace HidInput

/-- The shared memory as the scans have found it. -/
def memories (events : List Event) : List HidSharedMemory :=
  events.filterMap fun
    | .hidScanInput mem => some mem
    | _ => none

def touches (events : List Event) : List (Entry (BitVec 64)) :=
  (memories events).filterMap fun mem => mem.touchscreen.latest

def mice (events : List Event) : List (Entry (BitVec 64)) :=
  (memories events).filterMap fun mem => mem.mouse.latest

def keyboards (events : List Event) : List (Entry HidKeyboardEntry) :=
  (memories events).filterMap fun mem => mem.keyboard.latest

/-- The entries that the scans have found of a controller, from a layout on. -/
def samples (i : HidControllerID) :
    HidControllerLayoutType → List Event → List (Entry HidControllerInputEntry)
  | _, [] => []
  | layout, .hidScanInput mem :: events =>
    (mem.controllers i layout).latest.toList ++ samples i layout events
  | layout, .hidSetControllerLayout id layoutType :: events =>
    samples i (if id = some i then layoutType else layout) events

/-- What is held behind a run, from what its scans have found. -/
def heldAfter (events : List Event) : (d : Device) → BitVec d.width
  | .mouse => newestOf (mice events)
  | .keyboardMod => (newestOf (keyboards events)).modifier
  | .keyboardKeys i => (newestOf (keyboards events)).keys i
  | .controller i => touchKeys (newestOf (touches events)) i |||
      (newestOf (samples i .default events)).buttons

/-- The controller of the first player, where the last scan has taken an entry that is connected. -/
def inUse (events : List Event) : HidControllerID :=
  p1AutoID (newestOf (samples .player1 .default events))

/-- No time stamp is negative. -/
structure Timely (events : List Event) : Prop where
  touches : InTime (touches events)
  mice : InTime (mice events)
  keyboards : InTime (keyboards events)
  samples : ∀ i, InTime (samples i .default events)

variable {s s' : HidInput} {events : List Event} {mem : HidSharedMemory}

theorem filterMap_memories_cons {α : Type} {f : HidSharedMemory → Option (Entry α)} {e : Entry α}
    (h : f mem = some e) (events : List Event) :
    (memories (.hidScanInput mem :: events)).filterMap f =
      e :: (memories events).filterMap f := by
  have hcons : memories (.hidScanInput mem :: events) = mem :: memories events := rfl
  rw [hcons, List.filterMap_cons_some h]

theorem run_taken (h : run events s = some s') :
    s'.touch = (touches events).foldl Taken.scan s.touch ∧
    s'.mouse = (mice events).foldl Taken.scan s.mouse ∧
    s'.keyboard = (keyboards events).foldl Taken.scan s.keyboard ∧
    ∀ i, s'.controllers i =
      (samples i (s.controllerLayout i) events).foldl Taken.scan (s.controllers i) := by
  induction events generalizing s with
  | nil =>
    obtain rfl := Option.some.inj h
    exact ⟨rfl, rfl, rfl, fun _ => rfl⟩
  | cons event events ih =>
    obtain ⟨s₁, hstep, hrest⟩ := run_cons.mp h
    cases event with
    | hidScanInput mem =>
      obtain ⟨new, hnew, rfl⟩ := hidScanInput_eq_some_iff.mp hstep
      obtain ⟨htouch, hmouse, hkeyboard, hcontrollers⟩ :=
        HidSharedMemory.newEntries_eq_some_iff.mp hnew
      rw [touches, mice, keyboards, filterMap_memories_cons htouch,
        filterMap_memories_cons hmouse, filterMap_memories_cons hkeyboard]
      obtain ⟨ihtouch, ihmouse, ihkeyboard, ihcontrollers⟩ := ih hrest
      refine ⟨ihtouch, ihmouse, ihkeyboard, fun i => ?_⟩
      rw [samples, hcontrollers i]
      exact ihcontrollers i
    | hidSetControllerLayout id layoutType =>
      obtain rfl := Option.some.inj hstep
      exact ih hrest

/-- What is held is what the last scan has found. -/
structure Settled (s : HidInput) : Prop where
  held : ∀ d, (s.buttons d).held = s.found d
  controllerP1AutoID : s.controllerP1AutoID = p1AutoID (s.controllers .player1).value

theorem settled_hidReset : Settled hidReset where
  held d := by
    cases d with
    | controller i =>
      have hnone : touchKeys 0 i = 0 := if_neg fun h => h.2 rfl
      change 0 = touchKeys 0 i ||| 0
      rw [hnone]
      rfl
    | _ => rfl
  controllerP1AutoID := by decide

theorem Settled.apply {event : Event} (hs : Settled s) (h : s.apply event = some s') :
    Settled s' := by
  cases event with
  | hidScanInput mem =>
    refine ⟨fun d => ?_, ?_⟩
    · rw [buttons_hidScanInput h]
      rfl
    · obtain ⟨new, -, rfl⟩ := hidScanInput_eq_some_iff.mp h
      rfl
  | hidSetControllerLayout id layoutType =>
    obtain rfl := Option.some.inj h
    refine ⟨fun d => ?_, hs.controllerP1AutoID⟩
    rw [buttons_hidSetControllerLayout, hs.held]
    cases d <;> rfl

theorem Settled.run (hs : Settled s) (h : run events s = some s') : Settled s' := by
  induction events generalizing s with
  | nil =>
    obtain rfl := Option.some.inj h
    exact hs
  | cons event events ih =>
    obtain ⟨s₁, hstep, hrest⟩ := run_cons.mp h
    exact ih (hs.apply hstep) hrest

/-- A run behind a reset leaves held what its history says. -/
theorem held_run (h : run events hidReset = some s) (htimely : Timely events) :
    (∀ d, (s.buttons d).held = heldAfter events d) ∧ s.controllerP1AutoID = inUse events := by
  obtain ⟨htouch, hmouse, hkeyboard, hcontrollers⟩ := run_taken h
  have hsettled := settled_hidReset.run h
  have hsamples : ∀ i, (s.controllers i).value = newestOf (samples i .default events) := by
    intro i
    rw [hcontrollers i]
    exact Taken.value_foldl (htimely.samples i)
  have htouches : s.touch.value = newestOf (touches events) := by
    rw [htouch]
    exact Taken.value_foldl htimely.touches
  have hkeyboards : s.keyboard.value = newestOf (keyboards events) := by
    rw [hkeyboard]
    exact Taken.value_foldl htimely.keyboards
  constructor
  · intro d
    rw [hsettled.held d]
    cases d with
    | mouse =>
      change s.mouse.value = _
      rw [hmouse]
      exact Taken.value_foldl htimely.mice
    | keyboardMod => exact congrArg HidKeyboardEntry.modifier hkeyboards
    | keyboardKeys i => exact congrFun (congrArg HidKeyboardEntry.keys hkeyboards) i
    | controller i => rw [found, heldAfter, htouches, hsamples]
  · rw [hsettled.controllerP1AutoID, inUse, hsamples]

theorem memories_concat (events : List Event) (mem : HidSharedMemory) :
    memories (events ++ [.hidScanInput mem]) = memories events ++ [mem] := by
  rw [memories, List.filterMap_append]
  rfl

theorem prefix_samples (i : HidControllerID) (layout : HidControllerLayoutType)
    (events more : List Event) :
    samples i layout events <+: samples i layout (events ++ more) := by
  induction events generalizing layout with
  | nil => exact List.nil_prefix
  | cons event events ih =>
    cases event with
    | hidScanInput mem => exact (List.prefix_append_right_inj _).mpr (ih layout)
    | hidSetControllerLayout id layoutType => exact ih _

theorem Timely.of_concat {mem : HidSharedMemory}
    (h : Timely (events ++ [.hidScanInput mem])) : Timely events where
  touches e he := h.touches e (by
    rw [HidInput.touches, memories_concat, List.filterMap_append]
    exact List.mem_append_left _ he)
  mice e he := h.mice e (by
    rw [HidInput.mice, memories_concat, List.filterMap_append]
    exact List.mem_append_left _ he)
  keyboards e he := h.keyboards e (by
    rw [HidInput.keyboards, memories_concat, List.filterMap_append]
    exact List.mem_append_left _ he)
  samples i e he := h.samples i e ((prefix_samples i _ events _).subset he)

theorem run_concat {event : Event} : run (events ++ [event]) s = some s' ↔
    ∃ s₁, run events s = some s₁ ∧ s₁.apply event = some s' := by
  rw [run, List.foldlM_append, Option.bind_eq_bind, Option.bind_eq_some_iff]
  simp only [List.foldlM_cons, List.foldlM_nil, bind_pure]
  rfl

/-- What a scan makes of the devices, from the history of the run: what is held, what of it was not
held before, and what was held before and is not any more. -/
theorem run_scan (h : run (events ++ [.hidScanInput mem]) hidReset = some s)
    (htimely : Timely (events ++ [.hidScanInput mem])) :
    let now := events ++ [.hidScanInput mem]
    (∀ d, s.buttons d = ⟨heldAfter events d, heldAfter now d,
      ~~~heldAfter events d &&& heldAfter now d, heldAfter events d &&& ~~~heldAfter now d⟩) ∧
      s.controllerP1AutoID = inUse now := by
  obtain ⟨hheld, hauto⟩ := held_run h htimely
  obtain ⟨s₁, hbefore, hscan⟩ := run_concat.mp h
  obtain ⟨hheld₁, -⟩ := held_run hbefore htimely.of_concat
  refine ⟨fun d => ?_, hauto⟩
  have hbuttons := buttons_hidScanInput hscan d
  have hfound : s.found d = heldAfter (events ++ [.hidScanInput mem]) d := by
    rw [← hheld d, hbuttons]
    rfl
  rw [hbuttons, hfound, Buttons.scan, hheld₁ d]

end HidInput

theorem HidInput.timely_memoryOf {l : List (BitVec 64 × BitVec 64)}
    (h : ∀ p ∈ l, p.1.toNat < 2 ^ 63) :
    Timely (l.map fun p => .hidScanInput (memoryOf p.1 p.2)) := by
  induction l with
  | nil =>
    have hnil {α : Type} : InTime ([] : List (Entry α)) := List.forall_mem_nil _
    exact ⟨hnil, hnil, hnil, fun _ => hnil⟩
  | cons p l ih =>
    obtain ⟨hp, hl⟩ := List.forall_mem_cons.mp h
    obtain ⟨htouches, hmice, hkeyboards, hsamples⟩ := ih hl
    exact ⟨List.forall_mem_cons.mpr ⟨hp, htouches⟩, List.forall_mem_cons.mpr ⟨hp, hmice⟩,
      List.forall_mem_cons.mpr ⟨hp, hkeyboards⟩,
      fun i => List.forall_mem_cons.mpr ⟨hp, hsamples i⟩⟩

/-- The older entry of the second scan is not taken: B is released, and no player is connected. -/
theorem HidInput.run_scan_older :
    ∃ s, run [.hidScanInput (memoryOf 5 2), .hidScanInput (memoryOf 3 2)] hidReset = some s ∧
      s.buttons (.controller .player1) = ⟨2, 0, 0, 2⟩ ∧ s.controllerP1AutoID = .handheld := by
  have h : Timely ([.hidScanInput (memoryOf 5 2)] ++ [.hidScanInput (memoryOf 3 2)]) :=
    timely_memoryOf (l := [(5, 2), (3, 2)]) (by simp)
  have hrun : run ([.hidScanInput (memoryOf 5 2)] ++ [.hidScanInput (memoryOf 3 2)]) hidReset =
      some _ := rfl
  obtain ⟨hbuttons, hauto⟩ := run_scan hrun h
  exact ⟨_, hrun, hbuttons (.controller .player1), hauto⟩

end Sp2Module.Hid
