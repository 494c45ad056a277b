import Sp2Module.HidHistory
import Sp2Module.PongFrame

/-!
# The keys of Pong

The first frame resets the statics of the devices, and each frame scans the shared memory that the
first one has found. A frame is played with the keys of one controller, the first player's while it
is connected. B starts a new game in the frame in which that controller holds it and did not hold it
a frame before, and of the frames before nothing is left.
-/

namespace Sp2Module.Pong

open Hid (HidInput HidSharedMemory)
open Draw (RenderInfo)

def keyB : BitVec 64 := BitVec.twoPow 64 1

def keyUp : BitVec 64 := BitVec.twoPow 64 13 ||| BitVec.twoPow 64 17 ||| BitVec.twoPow 64 21

def keyDown : BitVec 64 := BitVec.twoPow 64 15 ||| BitVec.twoPow 64 19 ||| BitVec.twoPow 64 23

/-- The keys of `kDown` and `kHeld`. -/
def keysOf (kDown kHeld : BitVec 64) : Keys :=
  ⟨kDown &&& keyB ≠ 0, kHeld &&& keyUp ≠ 0, kHeld &&& keyDown ≠ 0⟩

/-- What a frame is called with: the `RenderInfo`, what `GetHidSharedMemory` finds, and what is at
each address when the devices are scanned; for a pointer of zero it is the memory of libnx. -/
structure InputFrame (D P : Type*) where
  info : RenderInfo ℚ D P
  hidSharedMemory : UInt64
  memory : UInt64 → HidSharedMemory

/-- The statics of the hook and of Pong, and those of the devices. -/
structure InputSession where
  session : PongSession
  hid : HidInput

namespace InputSession

variable {D P Q : Type*} (getProjectionMatrix : P → Q)

/-- The statics of the devices behind the scan of a frame. -/
def scan (f : InputFrame D P) (s : InputSession) : Option HidInput :=
  if s.session.hidInit then s.hid.hidScanInput (f.memory (s.session.hidSharedMem.getD 0))
  else Hid.hidReset.hidScanInput (f.memory f.hidSharedMemory)

/-- The frame with the keys that are found for `CONTROLLER_P1_AUTO`. -/
def frame (f : InputFrame D P) (hid : HidInput) : Frame D P :=
  ⟨f.info, keysOf (hid.hidKeysDown none) (hid.hidKeysHeld none), f.hidSharedMemory⟩

/-- `MiniGameEtcDrawHook` with the scan of the devices. -/
def miniGameEtcDrawHook (f : InputFrame D P) (s : InputSession) :
    Option (InputSession × Picture D Q) :=
  (s.scan f).map fun hid =>
    let drawn := PongSession.miniGameEtcDrawHook getProjectionMatrix (frame f hid) s.session
    (⟨drawn.1, hid⟩, drawn.2)

def run (frames : List (InputFrame D P)) (s : InputSession) : Option InputSession :=
  frames.foldlM (fun s f => (miniGameEtcDrawHook getProjectionMatrix f s).map Prod.fst) s

end InputSession

/-! ### The keys of a history -/

/-- The keys that a frame is played with, from the memory as it and the frames before have found
it. -/
def keysAt (memories : List HidSharedMemory) : Keys :=
  let now := memories.map HidInput.Event.hidScanInput
  let before := memories.dropLast.map HidInput.Event.hidScanInput
  let held := HidInput.heldAfter now (.controller (HidInput.inUse now))
  keysOf (~~~HidInput.heldAfter before (.controller (HidInput.inUse now)) &&& held) held

/-- The keys of all frames. -/
def keysOfRun (memories : List HidSharedMemory) : List Keys := memories.inits.tail.map keysAt

/-- The frames from the last one on that starts a new game. -/
def sincePress : List Keys → List Keys
  | [] => []
  | k :: keys => if keys.any Keys.b then sincePress keys else k :: keys

namespace PongGame

variable {k : Keys} {keys : List Keys}

/-- A frame with a new game does not depend on the one before. -/
theorem logic_of_press (hb : k.b) (g g' : PongGame) : g.logic k = g'.logic k := by
  have hrestart : ∀ g : PongGame, g.restart k = reset := fun g => if_pos hb
  simp only [logic, beforeHits, beforeGoals, hrestart]

theorem foldl_of_press (h : keys.any Keys.b) (g g' : PongGame) :
    keys.foldl (fun g k => g.logic k) g = keys.foldl (fun g k => g.logic k) g' := by
  induction keys generalizing g g' with
  | nil => cases h
  | cons k keys ih =>
    rw [List.foldl_cons, List.foldl_cons]
    by_cases hb : k.b
    · rw [logic_of_press hb g g']
    · rw [List.any_cons, (Bool.not_eq_true _).mp hb, Bool.false_or] at h
      exact ih h (g.logic k) (g'.logic k)

theorem run_sincePress (keys : List Keys) : run (sincePress keys) = run keys := by
  induction keys with
  | nil => rfl
  | cons k keys ih =>
    rw [sincePress]
    by_cases hpress : keys.any Keys.b
    · rw [if_pos hpress, ih]
      exact foldl_of_press hpress reset (reset.logic k)
    · rw [if_neg hpress]

end PongGame

/-! ### Whole runs -/

theorem keysOfRun_concat (memories : List HidSharedMemory) (mem : HidSharedMemory) :
    keysOfRun (memories ++ [mem]) = keysOfRun memories ++ [keysAt (memories ++ [mem])] := by
  have hne : memories.inits ≠ [] :=
    List.ne_nil_of_mem ((List.mem_inits _ _).mpr List.nil_prefix)
  rw [keysOfRun, List.inits_append, List.tail_append_of_ne_nil hne, List.map_append]
  rfl

/-- The statics of the devices behind scans of the memory. -/
def hidAfter (memories : List HidSharedMemory) : Option HidInput :=
  HidInput.run (memories.map .hidScanInput) Hid.hidReset

theorem hidAfter_concat (memories : List HidSharedMemory) (mem : HidSharedMemory) :
    hidAfter (memories ++ [mem]) = (hidAfter memories).bind (HidInput.hidScanInput mem) := by
  rw [hidAfter, List.map_append, HidInput.run, List.foldlM_append]
  simp only [List.map_cons, List.map_nil, List.foldlM_cons, List.foldlM_nil, bind_pure]
  rfl

/-- The keys that are found by the last scan are those of the history. -/
theorem keysOf_hidAfter {memories : List HidSharedMemory} {mem : HidSharedMemory} {hid : HidInput}
    (hhid : hidAfter (memories ++ [mem]) = some hid)
    (h : HidInput.Timely ((memories ++ [mem]).map .hidScanInput)) :
    keysOf (hid.hidKeysDown none) (hid.hidKeysHeld none) = keysAt (memories ++ [mem]) := by
  have hmap : (memories ++ [mem]).map HidInput.Event.hidScanInput =
      memories.map .hidScanInput ++ [.hidScanInput mem] := List.map_append
  rw [hidAfter, hmap] at hhid
  rw [hmap] at h
  obtain ⟨hbuttons, hauto⟩ := HidInput.run_scan hhid h
  have hdevice := hbuttons (.controller (HidInput.inUse (memories.map .hidScanInput ++
    [.hidScanInput mem])))
  simp only [HidInput.buttons] at hdevice
  rw [HidInput.hidKeysDown, HidInput.hidKeysHeld, Option.getD_none, hauto, hdevice, keysAt, hmap,
    List.dropLast_concat]

namespace InputSession

variable {D P Q : Type*} {getProjectionMatrix : P → Q}

/-- A frame, from the statics of the devices as its scan leaves them. -/
theorem hook_of_scan (f : InputFrame D P) (s : InputSession) {memories : List HidSharedMemory}
    {mem : HidSharedMemory} (h : HidInput.Timely ((memories ++ [mem]).map .hidScanInput))
    (hscan : s.scan f = hidAfter (memories ++ [mem])) :
    (miniGameEtcDrawHook getProjectionMatrix f s).map Prod.fst =
      (hidAfter (memories ++ [mem])).map fun hid =>
        ⟨(PongSession.miniGameEtcDrawHook getProjectionMatrix
          ⟨f.info, keysAt (memories ++ [mem]), f.hidSharedMemory⟩ s.session).1, hid⟩ := by
  rw [miniGameEtcDrawHook, hscan, Option.map_map]
  refine Option.map_congr fun hid hhid => ?_
  rw [Function.comp_apply, frame, keysOf_hidAfter hhid h]

/-- What a run finds in the memory behind a pointer. -/
def memoriesAt (pointer : UInt64) (frames : List (InputFrame D P)) : List HidSharedMemory :=
  frames.map fun f => f.memory pointer

theorem memoriesAt_concat (pointer : UInt64) (frames : List (InputFrame D P))
    (f : InputFrame D P) :
    memoriesAt pointer (frames ++ [f]) = memoriesAt pointer frames ++ [f.memory pointer] := by
  rw [memoriesAt, List.map_append]
  rfl

/-- In a run every frame is played with the keys of its history, and what is left of the game is
what has been played since B was last pressed; the run has an outcome where its scans have. -/
theorem run_frames (first : InputFrame D P) (rest : List (InputFrame D P)) (m : Option UInt64)
    (o : PongObject) (hid : HidInput) :
    let memories := memoriesAt first.hidSharedMemory (first :: rest)
    HidInput.Timely (memories.map .hidScanInput) →
      run getProjectionMatrix (first :: rest) ⟨.start m o, hid⟩ =
        (hidAfter memories).map fun hid =>
          ⟨⟨true, some first.hidSharedMemory, 1, true,
            ⟨PongGame.run (sincePress (keysOfRun memories)), 250, 1030⟩⟩, hid⟩ := by
  induction rest using List.reverseRecOn with
  | nil =>
    intro memories h
    have hsession : (PongSession.miniGameEtcDrawHook getProjectionMatrix
        ⟨first.info, keysAt memories, first.hidSharedMemory⟩ (.start m o)).1 =
          ⟨true, some first.hidSharedMemory, 1, true,
            ⟨PongGame.run (keysOfRun memories), 250, 1030⟩⟩ :=
      PongSession.run_start ⟨first.info, keysAt memories, first.hidSharedMemory⟩ [] m o
    have hmap : memories = [] ++ [first.memory first.hidSharedMemory] := rfl
    have hscan : scan first ⟨.start m o, hid⟩ = hidAfter memories := by
      rw [hmap, hidAfter_concat]
      rfl
    have hrun : run getProjectionMatrix [first] ⟨.start m o, hid⟩ =
        (miniGameEtcDrawHook getProjectionMatrix first ⟨.start m o, hid⟩).map Prod.fst :=
      bind_pure _
    have hhook : (miniGameEtcDrawHook getProjectionMatrix first ⟨.start m o, hid⟩).map Prod.fst =
        (hidAfter memories).map _ :=
      hook_of_scan first ⟨.start m o, hid⟩ (hmap ▸ h) hscan
    rw [hrun, hhook, PongGame.run_sincePress, ← hsession]
    rfl
  | append_singleton rest f ih =>
    intro memories h
    have hmap : memories = memoriesAt first.hidSharedMemory (first :: rest) ++
        [f.memory first.hidSharedMemory] := memoriesAt_concat _ (first :: rest) f
    have hstep : run getProjectionMatrix (first :: (rest ++ [f])) ⟨.start m o, hid⟩ =
        (run getProjectionMatrix (first :: rest) ⟨.start m o, hid⟩).bind fun s =>
          (miniGameEtcDrawHook getProjectionMatrix f s).map Prod.fst := by
      rw [← List.cons_append, run, List.foldlM_append]
      simp only [List.foldlM_cons, List.foldlM_nil, bind_pure]
      rfl
    rw [hmap] at h ⊢
    have hprev := h
    rw [List.map_append] at hprev
    rw [hstep, ih hprev.of_concat]
    cases hbefore : hidAfter (memoriesAt first.hidSharedMemory (first :: rest)) with
    | none => rw [hidAfter_concat, hbefore]; rfl
    | some before =>
      have hscan : ∀ game, scan f ⟨⟨true, some first.hidSharedMemory, 1, true, game⟩, before⟩ =
          hidAfter (memoriesAt first.hidSharedMemory (first :: rest) ++
            [f.memory first.hidSharedMemory]) := by
        intro game
        rw [hidAfter_concat, hbefore]
        rfl
      rw [Option.map_some, Option.bind_some, hook_of_scan f _ h (hscan _), PongGame.run_sincePress,
        PongGame.run_sincePress, keysOfRun_concat, PongGame.run, PongGame.run, List.foldl_append]
      rfl

end InputSession

/-- A frame in which all controllers are connected and hold the same. -/
def frameOf (timestamp buttons : BitVec 64) : InputFrame Unit Unit :=
  ⟨⟨(), fun _ _ => 0, ()⟩, 0x1000, fun _ => Hid.memoryOf timestamp buttons⟩

/-- B is pressed in the second frame and still held in the third one, so that two frames have been
played. -/
theorem run_frames_held : (InputSession.run id [frameOf 1 0, frameOf 2 2, frameOf 3 2]
    ⟨.start none .new, Hid.hidReset⟩).map (fun s => s.session.pongGame.game) =
      some (PongGame.run [⟨true, false, false⟩, ⟨false, false, false⟩]) := by
  have hkeys : sincePress (keysOfRun [Hid.memoryOf 1 0, Hid.memoryOf 2 2, Hid.memoryOf 3 2]) =
      [⟨true, false, false⟩, ⟨false, false, false⟩] := by
    decide
  have h := HidInput.timely_memoryOf (l := [(1, 0), (2, 2), (3, 2)]) (by simp)
  have hrun : InputSession.run id [frameOf 1 0, frameOf 2 2, frameOf 3 2] _ = _ :=
    InputSession.run_frames (frameOf 1 0) [frameOf 2 2, frameOf 3 2] none .new Hid.hidReset h
  rw [hrun, ← hkeys]
  rfl

end Sp2Module.Pong
