import Sp2Module.Newest
import Sp2Module.Switch
import Mathlib.Data.BitVec

/-!
# The input devices

A scan takes the latest entry of each device out of the memory shared with the console, but not one
that is older than the last one taken: then nothing is held on the device. What is pressed and
released is told from two scans one after the other. Nothing checks where the memory says that the
latest entry is; a scan that would leave the entries has no outcome.
-/

namespace Sp2Module.Hid

/-- An entry: its time stamp, and what is read of the rest. -/
structure Entry (α : Type) where
  timestamp : BitVec 64
  value : α

/-- The entries of a device, with what stands for the index of the latest one. -/
structure Ring (α : Type) where
  latestEntry : BitVec 64
  entries : Fin 17 → Entry α

/-- `&entries[latestEntry]`, where there is such an entry. -/
def Ring.latest {α : Type} (r : Ring α) : Option (Entry α) :=
  if h : r.latestEntry.toNat < 17 then some (r.entries ⟨r.latestEntry.toNat, h⟩) else none

structure HidKeyboardEntry where
  modifier : BitVec 64
  keys : Fin 8 → BitVec 32

structure HidControllerInputEntry where
  buttons : BitVec 64
  connectionState : BitVec 64
deriving DecidableEq

instance : Zero HidKeyboardEntry := ⟨⟨0, fun _ => 0⟩⟩

instance : Zero HidControllerInputEntry := ⟨⟨0, 0⟩⟩

inductive HidControllerLayoutType where
  | procontroller
  | handheld
  | single
  | left
  | right
  | defaultDigital
  | default
deriving DecidableEq, Repr

/-- The ten controllers. -/
inductive HidControllerID where
  | player1
  | player2
  | player3
  | player4
  | player5
  | player6
  | player7
  | player8
  | handheld
  | unknown
deriving DecidableEq, Repr

/-- What there is for each of the controllers, where there is something for all of them. -/
def HidControllerID.each {α : Type} (f : HidControllerID → Option α) :
    Option (HidControllerID → α) := do
  let player1 ← f .player1
  let player2 ← f .player2
  let player3 ← f .player3
  let player4 ← f .player4
  let player5 ← f .player5
  let player6 ← f .player6
  let player7 ← f .player7
  let player8 ← f .player8
  let handheld ← f .handheld
  let unknown ← f .unknown
  return fun
    | .player1 => player1
    | .player2 => player2
    | .player3 => player3
    | .player4 => player4
    | .player5 => player5
    | .player6 => player6
    | .player7 => player7
    | .player8 => player8
    | .handheld => handheld
    | .unknown => unknown

theorem HidControllerID.each_eq_some {α : Type} {f : HidControllerID → Option α}
    {g : HidControllerID → α} : each f = some g ↔ ∀ i, f i = some (g i) := by
  constructor
  · intro h i
    obtain ⟨_, h₁, h⟩ := Option.bind_eq_some_iff.mp h
    obtain ⟨_, h₂, h⟩ := Option.bind_eq_some_iff.mp h
    obtain ⟨_, h₃, h⟩ := Option.bind_eq_some_iff.mp h
    obtain ⟨_, h₄, h⟩ := Option.bind_eq_some_iff.mp h
    obtain ⟨_, h₅, h⟩ := Option.bind_eq_some_iff.mp h
    obtain ⟨_, h₆, h⟩ := Option.bind_eq_some_iff.mp h
    obtain ⟨_, h₇, h⟩ := Option.bind_eq_some_iff.mp h
    obtain ⟨_, h₈, h⟩ := Option.bind_eq_some_iff.mp h
    obtain ⟨_, h₉, h⟩ := Option.bind_eq_some_iff.mp h
    obtain ⟨_, h₁₀, h⟩ := Option.bind_eq_some_iff.mp h
    obtain rfl := Option.some.inj h
    cases i <;> assumption
  · intro h
    simp only [each, h, Option.bind_eq_bind, Option.bind_some]
    refine congrArg some (funext fun i => ?_)
    cases i <;> rfl

/-- The shared memory; of an entry of the screen the number of touches, of one of the mouse the
buttons. -/
structure HidSharedMemory where
  touchscreen : Ring (BitVec 64)
  mouse : Ring (BitVec 64)
  keyboard : Ring HidKeyboardEntry
  controllers : HidControllerID → HidControllerLayoutType → Ring HidControllerInputEntry

/-- The entries that a scan looks at. -/
structure NewEntries where
  touch : Entry (BitVec 64)
  mouse : Entry (BitVec 64)
  keyboard : Entry HidKeyboardEntry
  controllers : HidControllerID → Entry HidControllerInputEntry

/-- The latest entry of each device, of a controller in its layout. -/
def HidSharedMemory.newEntries (mem : HidSharedMemory)
    (layout : HidControllerID → HidControllerLayoutType) : Option NewEntries := do
  let touch ← mem.touchscreen.latest
  let mouse ← mem.mouse.latest
  let keyboard ← mem.keyboard.latest
  let controllers ← HidControllerID.each fun i => (mem.controllers i (layout i)).latest
  return ⟨touch, mouse, keyboard, controllers⟩

theorem Ring.latest_isSome {α : Type} {r : Ring α} :
    r.latest.isSome ↔ r.latestEntry.toNat < 17 := by
  rw [latest]
  split_ifs with h
  · exact iff_of_true rfl h
  · exact iff_of_false Bool.false_ne_true h

namespace HidSharedMemory

variable {mem : HidSharedMemory} {layout : HidControllerID → HidControllerLayoutType}

theorem newEntries_eq_some_iff {new : NewEntries} : mem.newEntries layout = some new ↔
    mem.touchscreen.latest = some new.touch ∧ mem.mouse.latest = some new.mouse ∧
      mem.keyboard.latest = some new.keyboard ∧
        ∀ i, (mem.controllers i (layout i)).latest = some (new.controllers i) := by
  simp only [newEntries, Option.bind_eq_bind, Option.bind_eq_some_iff]
  constructor
  · rintro ⟨touch, htouch, mouse, hmouse, keyboard, hkeyboard, controllers, hcontrollers, hnew⟩
    obtain rfl := Option.some.inj hnew
    exact ⟨htouch, hmouse, hkeyboard, HidControllerID.each_eq_some.mp hcontrollers⟩
  · rintro ⟨htouch, hmouse, hkeyboard, hcontrollers⟩
    exact ⟨_, htouch, _, hmouse, _, hkeyboard, _, HidControllerID.each_eq_some.mpr hcontrollers,
      rfl⟩

/-- There are entries to look at where every index that is used is one of an entry. -/
theorem newEntries_isSome : (mem.newEntries layout).isSome ↔
    mem.touchscreen.latestEntry.toNat < 17 ∧ mem.mouse.latestEntry.toNat < 17 ∧
      mem.keyboard.latestEntry.toNat < 17 ∧
        ∀ i, (mem.controllers i (layout i)).latestEntry.toNat < 17 := by
  simp only [← Ring.latest_isSome, Option.isSome_iff_exists]
  constructor
  · rintro ⟨new, hnew⟩
    obtain ⟨htouch, hmouse, hkeyboard, hcontrollers⟩ := newEntries_eq_some_iff.mp hnew
    exact ⟨⟨_, htouch⟩, ⟨_, hmouse⟩, ⟨_, hkeyboard⟩, fun i => ⟨_, hcontrollers i⟩⟩
  · rintro ⟨⟨touch, htouch⟩, ⟨mouse, hmouse⟩, ⟨keyboard, hkeyboard⟩, hcontrollers⟩
    choose controllers hcontrollers using hcontrollers
    exact ⟨⟨touch, mouse, keyboard, controllers⟩,
      newEntries_eq_some_iff.mpr ⟨htouch, hmouse, hkeyboard, hcontrollers⟩⟩

end HidSharedMemory

/-- The `Old`, `Held`, `Down` and `Up` of a device. -/
structure Buttons (w : ℕ) where
  old : BitVec w
  held : BitVec w
  down : BitVec w
  up : BitVec w

def Buttons.zero (w : ℕ) : Buttons w := ⟨0, 0, 0, 0⟩

def Buttons.scan {w : ℕ} (b : Buttons w) (held : BitVec w) : Buttons w :=
  ⟨b.held, held, ~~~b.held &&& held, b.held &&& ~~~held⟩

/-- The entry that the last scan has taken, zero when it was too old, and the time stamp of the last
one that has been taken. -/
structure Taken (α : Type) where
  value : α
  timestamp : BitVec 64

def Taken.scan {α : Type} [Zero α] (t : Taken α) (new : Entry α) : Taken α :=
  if 0 ≤ (new.timestamp - t.timestamp).toInt then ⟨new.value, new.timestamp⟩
  else ⟨0, t.timestamp⟩

/-- The statics of `hid.c`. -/
structure HidInput where
  touch : Taken (BitVec 64)
  mouse : Taken (BitVec 64)
  keyboard : Taken HidKeyboardEntry
  controllers : HidControllerID → Taken HidControllerInputEntry
  controllerLayout : HidControllerID → HidControllerLayoutType
  mouseButtons : Buttons 64
  keyboardMod : Buttons 64
  keyboardKeys : Fin 8 → Buttons 32
  controllerButtons : HidControllerID → Buttons 64
  controllerP1AutoID : HidControllerID

def keyTouch : BitVec 64 := BitVec.twoPow 64 28

def controllerStateConnected : BitVec 64 := BitVec.twoPow 64 0

/-- `hidTouchCount`, which gives a `u32`. -/
def hidTouchCount (touch : BitVec 64) : BitVec 32 := touch.setWidth 32

/-- What the screen adds to the keys of a controller. -/
def touchKeys (touch : BitVec 64) (i : HidControllerID) : BitVec 64 :=
  if i = .handheld ∧ hidTouchCount touch ≠ 0 then keyTouch else 0

/-- The controller that `CONTROLLER_P1_AUTO` stands for, from the entry of the first player. -/
def p1AutoID (entry : HidControllerInputEntry) : HidControllerID :=
  if entry.connectionState &&& controllerStateConnected ≠ 0 then .player1 else .handheld

def hidReset : HidInput where
  touch := ⟨0, 0⟩
  mouse := ⟨0, 0⟩
  keyboard := ⟨0, 0⟩
  controllers _ := ⟨0, 0⟩
  controllerLayout _ := .default
  mouseButtons := .zero 64
  keyboardMod := .zero 64
  keyboardKeys _ := .zero 32
  controllerButtons _ := .zero 64
  controllerP1AutoID := .handheld

namespace HidInput

/-- An entry that is not taken leaves zeros, which hold nothing. -/
def take (s : HidInput) (new : NewEntries) : HidInput :=
  let touch := s.touch.scan new.touch
  let mouse := s.mouse.scan new.mouse
  let keyboard := s.keyboard.scan new.keyboard
  let controllers i := (s.controllers i).scan (new.controllers i)
  { s with
    touch := touch
    mouse := mouse
    keyboard := keyboard
    controllers := controllers
    mouseButtons := s.mouseButtons.scan mouse.value
    keyboardMod := s.keyboardMod.scan keyboard.value.modifier
    keyboardKeys := fun i => (s.keyboardKeys i).scan (keyboard.value.keys i)
    controllerButtons := fun i =>
      (s.controllerButtons i).scan (touchKeys touch.value i ||| (controllers i).value.buttons)
    controllerP1AutoID := p1AutoID (controllers .player1).value }

def hidScanInput (mem : HidSharedMemory) (s : HidInput) : Option HidInput :=
  (mem.newEntries s.controllerLayout).map s.take

/-- The identifier `none` is `CONTROLLER_P1_AUTO`, which has no layout. -/
def hidSetControllerLayout (id : Option HidControllerID) (layoutType : HidControllerLayoutType)
    (s : HidInput) : HidInput :=
  { s with controllerLayout := fun i => if id = some i then layoutType else s.controllerLayout i }

def hidKeysHeld (id : Option HidControllerID) (s : HidInput) : BitVec 64 :=
  (s.controllerButtons (id.getD s.controllerP1AutoID)).held

def hidKeysDown (id : Option HidControllerID) (s : HidInput) : BitVec 64 :=
  (s.controllerButtons (id.getD s.controllerP1AutoID)).down

def hidKeysUp (id : Option HidControllerID) (s : HidInput) : BitVec 64 :=
  (s.controllerButtons (id.getD s.controllerP1AutoID)).up

/-- A call that changes the statics. -/
inductive Event where
  | hidScanInput (mem : HidSharedMemory)
  | hidSetControllerLayout (id : Option HidControllerID) (layoutType : HidControllerLayoutType)

def apply (s : HidInput) : Event → Option HidInput
  | .hidScanInput mem => s.hidScanInput mem
  | .hidSetControllerLayout id layoutType => some (s.hidSetControllerLayout id layoutType)

def run (events : List Event) (s : HidInput) : Option HidInput := events.foldlM apply s

end HidInput

/-! ### The devices -/

/-- What has buttons; the keyboard has eight words of keys. -/
inductive Device where
  | mouse
  | keyboardMod
  | keyboardKeys (i : Fin 8)
  | controller (i : HidControllerID)
deriving DecidableEq, Repr

def Device.width : Device → ℕ
  | .mouse => 64
  | .keyboardMod => 64
  | .keyboardKeys _ => 32
  | .controller _ => 64

namespace HidInput

def buttons (s : HidInput) : (d : Device) → Buttons d.width
  | .mouse => s.mouseButtons
  | .keyboardMod => s.keyboardMod
  | .keyboardKeys i => s.keyboardKeys i
  | .controller i => s.controllerButtons i

/-- What the entries of the last scan hold. -/
def found (s : HidInput) : (d : Device) → BitVec d.width
  | .mouse => s.mouse.value
  | .keyboardMod => s.keyboard.value.modifier
  | .keyboardKeys i => s.keyboard.value.keys i
  | .controller i => touchKeys s.touch.value i ||| (s.controllers i).value.buttons

variable {s s' : HidInput} {events : List Event} {mem : HidSharedMemory}

theorem hidScanInput_eq_some_iff : s.hidScanInput mem = some s' ↔
    ∃ new, mem.newEntries s.controllerLayout = some new ∧ s.take new = s' :=
  Option.map_eq_some_iff

theorem run_cons {event : Event} : run (event :: events) s = some s' ↔
    ∃ s₁, s.apply event = some s₁ ∧ run events s₁ = some s' := by
  rw [run, List.foldlM_cons, Option.bind_eq_bind, Option.bind_eq_some_iff]
  rfl

theorem buttons_take (new : NewEntries) (s : HidInput) (d : Device) :
    (s.take new).buttons d = (s.buttons d).scan ((s.take new).found d) := by
  cases d <;> rfl

theorem buttons_hidScanInput (h : s.hidScanInput mem = some s') (d : Device) :
    s'.buttons d = (s.buttons d).scan (s'.found d) := by
  obtain ⟨new, -, rfl⟩ := hidScanInput_eq_some_iff.mp h
  exact buttons_take new s d

theorem buttons_hidSetControllerLayout (id : Option HidControllerID)
    (layoutType : HidControllerLayoutType) (s : HidInput) (d : Device) :
    (s.hidSetControllerLayout id layoutType).buttons d = s.buttons d := by
  cases d <;> rfl

/-! ### One key over a run -/

end HidInput

def Buttons.switch {w : ℕ} (b : Buttons w) (k : ℕ) : Switch :=
  ⟨b.old.getLsbD k, b.held.getLsbD k, b.down.getLsbD k, b.up.getLsbD k⟩

theorem Buttons.switch_scan {w : ℕ} (b : Buttons w) (held : BitVec w) (k : ℕ) :
    (b.scan held).switch k = (b.switch k).scan (held.getLsbD k) := by
  have hnot : ∀ x y : BitVec w, (x &&& ~~~y).getLsbD k = (x.getLsbD k && !y.getLsbD k) := by
    intro x y
    rw [BitVec.getLsbD_and, BitVec.getLsbD_not]
    by_cases hk : k < w
    · rw [decide_eq_true hk, Bool.true_and]
    · rw [BitVec.getLsbD_of_ge x k (Nat.le_of_not_lt hk), Bool.false_and, Bool.false_and]
  rw [scan, switch, BitVec.and_comm, hnot, hnot, Bool.and_comm]
  rfl

namespace HidInput

variable {s s' : HidInput} {events : List Event} {mem : HidSharedMemory}

/-- A key of a device. -/
def switch (d : Device) (k : ℕ) (s : HidInput) : Switch := (s.buttons d).switch k

/-- The statics behind each scan, as far as there are any. -/
def scans : List Event → HidInput → List HidInput
  | [], _ => []
  | .hidScanInput mem :: events, s =>
    match s.hidScanInput mem with
    | none => []
    | some s' => s' :: scans events s'
  | .hidSetControllerLayout id layoutType :: events, s =>
    scans events (s.hidSetControllerLayout id layoutType)

theorem switch_hidScanInput (d : Device) (k : ℕ) (h : s.hidScanInput mem = some s') :
    (s.switch d k).Next (s'.switch d k) := by
  rw [switch, switch, buttons_hidScanInput h, Buttons.switch_scan]
  rfl

theorem switch_hidSetControllerLayout (d : Device) (k : ℕ) (id : Option HidControllerID)
    (layoutType : HidControllerLayoutType) (s : HidInput) :
    (s.hidSetControllerLayout id layoutType).switch d k = s.switch d k := by
  rw [switch, buttons_hidSetControllerLayout, switch]

theorem isChain_scans (d : Device) (k : ℕ) (h : run events s = some s') :
    (switch d k s :: (scans events s).map (switch d k)).IsChain Switch.Next ∧
      ((scans events s).map (switch d k)).getLastD (switch d k s) = switch d k s' := by
  induction events generalizing s with
  | nil =>
    obtain rfl := Option.some.inj h
    exact ⟨List.isChain_singleton _, rfl⟩
  | cons event events ih =>
    obtain ⟨s₁, hstep, hrest⟩ := run_cons.mp h
    obtain ⟨hchain, hlast⟩ := ih hrest
    cases event with
    | hidScanInput mem =>
      have hscan : s.hidScanInput mem = some s₁ := hstep
      have hscans : scans (.hidScanInput mem :: events) s = s₁ :: scans events s₁ := by
        rw [scans, hscan]
      rw [hscans, List.map_cons, List.getLastD_cons]
      exact ⟨List.isChain_cons_cons.mpr ⟨switch_hidScanInput d k hscan, hchain⟩, hlast⟩
    | hidSetControllerLayout id layoutType =>
      obtain rfl := Option.some.inj hstep
      rw [switch_hidSetControllerLayout] at hchain hlast
      exact ⟨hchain, hlast⟩

/-- In a run behind a reset the presses and releases of a key alternate, and there is one press more
than releases exactly while the key is held. -/
theorem presses_run (h : run events hidReset = some s) (d : Device) (k : ℕ) :
    let looks := (scans events hidReset).map (switch d k)
    looks.countP Switch.down = looks.countP Switch.up + (switch d k s).held.toNat ∧
      ∀ before s between t after, looks = before ++ s :: (between ++ t :: after) →
        (s.down → t.down → ∃ r ∈ between, r.up) ∧ (s.up → t.up → ∃ r ∈ between, r.down) := by
  obtain ⟨hchain, hlast⟩ := isChain_scans d k h
  have hreset : (switch d k hidReset).held = false := by
    cases d <;> exact BitVec.getLsbD_zero
  constructor
  · have hcount := Switch.countP_add hchain
    rwa [hlast, hreset] at hcount
  · intro before s between t after hlooks
    rw [hlooks] at hchain
    exact Switch.alternates hchain

end HidInput

/-- All entries with one time stamp; all controllers are connected and hold the same. -/
def memoryOf (timestamp buttons : BitVec 64) : HidSharedMemory where
  touchscreen := ⟨0, fun _ => ⟨timestamp, 0⟩⟩
  mouse := ⟨0, fun _ => ⟨timestamp, 0⟩⟩
  keyboard := ⟨0, fun _ => ⟨timestamp, 0⟩⟩
  controllers _ _ := ⟨0, fun _ => ⟨timestamp, ⟨buttons, controllerStateConnected⟩⟩⟩

/-- B is pressed, kept, released and pressed again. -/
theorem HidInput.presses_run_again :
    let events := [(1, 2), (2, 2), (3, 0), (4, 2)].map fun p => .hidScanInput (memoryOf p.1 p.2)
    let looks := (scans events hidReset).map (switch (.controller .player1) 1)
    looks.countP Switch.down = 2 ∧ looks.countP Switch.up = 1 ∧
      ∀ before s between t after, looks = before ++ s :: (between ++ t :: after) →
        (s.down → t.down → ∃ r ∈ between, r.up) ∧ (s.up → t.up → ∃ r ∈ between, r.down) := by
  intro events looks
  obtain ⟨s, hs⟩ := Option.isSome_iff_exists.mp (show (run events hidReset).isSome from rfl)
  exact ⟨by decide, by decide, (presses_run hs (.controller .player1) 1).2⟩

end Sp2Module.Hid
