import Sp2Module.PongInvariant
import Sp2Module.DrawPoints

/-!
# The frames of Pong

Each frame the hook takes a step of the game and draws it. The first frame takes the shared memory
of the controllers and makes the game new, whatever was there. In every frame the paddles are inside
the field and touch its borders at most; the ball is off three of the borders, and hangs over the
upper one by half its size at most.
-/

namespace Sp2Module.Pong

open Draw (Vector2 RenderInfo ColorQuad drawRect)

structure Color4f where
  r : ℚ
  g : ℚ
  b : ℚ
  a : ℚ
deriving DecidableEq, Repr

def bgColor : Color4f := ⟨0, 0, 0, 1⟩
def foreColor : Color4f := ⟨1, 1, 1, 1⟩

@[simp] def borderSize : ℚ := 4

/-- The arguments of `DrawRect` behind the `RenderInfo`. -/
structure RectCall where
  pos : Vector2 ℚ
  size : Vector2 ℚ
  color : Color4f

def RectCall.rectangle (r : RectCall) : Rectangle ℚ := Draw.rectangle r.pos r.size

/-- The arguments of `DrawText`, the text as it is formatted. -/
structure TextCall where
  pos : Vector2 ℚ
  scale : ℚ
  color : Color4f
  text : String

/-- `PongGame` with the places of the paddles, which no step changes. -/
structure PongObject where
  game : PongGame
  mX0 : ℚ
  mX1 : ℚ

/-- `PongPlayer::Render`. -/
def PongPlayer.render (x : ℚ) (p : PongPlayer) : RectCall :=
  ⟨⟨x, p.mY⟩, ⟨playerW, playerH⟩, foreColor⟩

/-- `PongBall::Render`. -/
def PongBall.render (ball : PongBall) : RectCall :=
  ⟨⟨ball.mX - ballSize / 2, ball.mY - ballSize / 2⟩, ⟨ballSize, ballSize⟩, foreColor⟩

namespace PongObject

/-- The constructor. -/
def new : PongObject := ⟨PongGame.reset, gameX + playerOff, screenW - gameX - playerOff⟩

def logic (k : Keys) (o : PongObject) : PongObject := { o with game := o.game.logic k }

def background : RectCall := ⟨⟨0, 0⟩, ⟨screenW, screenH⟩, bgColor⟩
def top : RectCall := ⟨⟨gameX, gameY - borderSize⟩, ⟨gameW, borderSize⟩, foreColor⟩
def bottom : RectCall := ⟨⟨gameX, gameY + gameH⟩, ⟨gameW, borderSize⟩, foreColor⟩
def left : RectCall := ⟨⟨gameX - borderSize, gameY⟩, ⟨borderSize, gameH⟩, foreColor⟩
def right : RectCall := ⟨⟨gameX + gameW, gameY⟩, ⟨borderSize, gameH⟩, foreColor⟩

def paddle0 (o : PongObject) : RectCall := o.game.player0.render o.mX0
def paddle1 (o : PongObject) : RectCall := o.game.player1.render o.mX1
def ball (o : PongObject) : RectCall := o.game.mBall.render

/-- The rectangles of `PongGame::Render`, in their order. -/
def rects (o : PongObject) : List RectCall :=
  [background, top, bottom, left, right, o.paddle0, o.paddle1, o.ball]

/-- The texts of `PongGame::Render`. -/
def texts (o : PongObject) : List TextCall :=
  [⟨⟨screenW / 2 - 100, 10⟩, 2, foreColor, "--Pong Game--"⟩,
    ⟨⟨100, 10⟩, 2, foreColor, "Player 1 : " ++ toString o.game.player0.mScore⟩,
    ⟨⟨screenW - 300, 10⟩, 2, foreColor, "Player 2 : " ++ toString o.game.player1.mScore⟩,
    ⟨⟨50, screenH - 35⟩, 3 / 2, foreColor, "B : Quit"⟩]

end PongObject

/-- What a frame is called with: the `RenderInfo`, the keys that a scan finds, and what
`GetHidSharedMemory` finds. -/
structure Frame (D P : Type*) where
  info : RenderInfo ℚ D P
  keys : Keys
  hidSharedMemory : UInt64

/-- What a frame draws. -/
structure Picture (D Q : Type*) where
  quads : List (ColorQuad ℚ D Color4f Q)
  texts : List TextCall

/-- The statics of the hook and of `PongProcess`, and the shared memory that libnx has got, with the
number of times its state has been reset. -/
structure PongSession where
  hidInit : Bool
  hidSharedMem : Option UInt64
  hidResets : ℕ
  pongInit : Bool
  pongGame : PongObject

namespace PongSession

variable {D P Q : Type*} (getProjectionMatrix : P → Q)

/-- Before the first frame. -/
def start (hidSharedMem : Option UInt64) (o : PongObject) : PongSession :=
  ⟨false, hidSharedMem, 0, false, o⟩

def render (info : RenderInfo ℚ D P) (o : PongObject) : Picture D Q :=
  ⟨o.rects.map fun r => drawRect getProjectionMatrix info r.pos r.size r.color, o.texts⟩

/-- `PongGame::PongProcess`. -/
def pongProcess (f : Frame D P) (s : PongSession) : PongSession × Picture D Q :=
  let s := if s.pongInit then s else { s with pongGame := .new, pongInit := true }
  let s := { s with pongGame := s.pongGame.logic f.keys }
  (s, render getProjectionMatrix f.info s.pongGame)

/-- `MiniGameEtcDrawHook`. -/
def miniGameEtcDrawHook (f : Frame D P) (s : PongSession) : PongSession × Picture D Q :=
  let s := if s.hidInit then s
    else { s with
      hidSharedMem := some f.hidSharedMemory
      hidResets := s.hidResets + 1
      hidInit := true }
  pongProcess getProjectionMatrix f s

/-- The session behind the frames. -/
def run (frames : List (Frame D P)) (s : PongSession) : PongSession :=
  frames.foldl (fun s f => (miniGameEtcDrawHook getProjectionMatrix f s).1) s

end PongSession

/-! ### The rectangles -/

namespace PongObject

variable {o : PongObject}

theorem rectangle_background : background.rectangle = ⟨0, 0, 1280, 720⟩ := by
  norm_num [background, RectCall.rectangle, Draw.rectangle, Draw.screenW, Draw.screenH]

theorem rectangle_top : top.rectangle = ⟨200, 96, 880, 4⟩ := by
  norm_num [top, RectCall.rectangle, Draw.rectangle, Draw.screenW]

theorem rectangle_bottom : bottom.rectangle = ⟨200, 620, 880, 4⟩ := by
  norm_num [bottom, RectCall.rectangle, Draw.rectangle, Draw.screenW, Draw.screenH]

theorem rectangle_left : left.rectangle = ⟨196, 100, 4, 520⟩ := by
  norm_num [left, RectCall.rectangle, Draw.rectangle, Draw.screenH]

theorem rectangle_right : right.rectangle = ⟨1080, 100, 4, 520⟩ := by
  norm_num [right, RectCall.rectangle, Draw.rectangle, Draw.screenW, Draw.screenH]

theorem rectangle_paddle0 : o.paddle0.rectangle = ⟨o.mX0, o.game.player0.mY, 8, 100⟩ := rfl

theorem rectangle_paddle1 : o.paddle1.rectangle = ⟨o.mX1, o.game.player1.mY, 8, 100⟩ := rfl

theorem rectangle_ball :
    o.ball.rectangle = ⟨o.game.mBall.mX - 3, o.game.mBall.mY - 3, 6, 6⟩ := by
  norm_num [ball, PongBall.render, RectCall.rectangle, Draw.rectangle]

/-- The places of a game that is going on. -/
structure Placed (o : PongObject) : Prop where
  mX0 : o.mX0 = 250
  mX1 : o.mX1 = 1030
  paddles : PongGame.PaddlesInField o.game
  walls : PongGame.BetweenWalls o.game
  ball : 208 ≤ o.game.mBall.mX ∧ o.game.mBall.mX ≤ 1072

/-- How the rectangles of a frame lie. -/
structure InPlace (o : PongObject) : Prop where
  onScreen : ∀ r ∈ o.rects, r.rectangle.points ⊆ background.rectangle.points
  paddles : ∀ p ∈ [o.paddle0, o.paddle1], ∀ border ∈ [top, bottom, left, right],
    ¬ p.rectangle.Overlaps border.rectangle
  paddlesApart : ¬ o.paddle0.rectangle.Overlaps o.paddle1.rectangle
  ball : ∀ border ∈ [bottom, left, right], ¬ o.ball.rectangle.Overlaps border.rectangle
  ballTop : o.ball.rectangle.Overlaps top.rectangle ↔ o.game.mBall.mY < 103
  ballTop_le : 97 ≤ o.ball.rectangle.y

theorem Placed.onScreen (h : Placed o) :
    ∀ r ∈ o.rects, r.rectangle.points ⊆ background.rectangle.points := by
  obtain ⟨hmX0, hmX1, ⟨hsame, hlow, hhigh⟩, ⟨htop, hbottom⟩, hleft, hright⟩ := h
  have hinside {r : RectCall} {x y w h : ℚ} (hr : r.rectangle = ⟨x, y, w, h⟩) (hx : 0 ≤ x)
      (hw : x + w ≤ 1280) (hy : 0 ≤ y) (hh : y + h ≤ 720) :
      r.rectangle.points ⊆ background.rectangle.points := by
    rw [hr, rectangle_background]
    exact Rectangle.points_subset hx (by simpa using hw) hy (by simpa using hh)
  simp only [rects, List.forall_mem_cons]
  refine ⟨subset_rfl, hinside rectangle_top ?_ ?_ ?_ ?_, hinside rectangle_bottom ?_ ?_ ?_ ?_,
    hinside rectangle_left ?_ ?_ ?_ ?_, hinside rectangle_right ?_ ?_ ?_ ?_,
    hinside rectangle_paddle0 ?_ ?_ ?_ ?_, hinside rectangle_paddle1 ?_ ?_ ?_ ?_,
    hinside rectangle_ball ?_ ?_ ?_ ?_, List.forall_mem_nil _⟩
  all_goals linarith

theorem Placed.paddles_apart (h : Placed o) :
    ∀ p ∈ [o.paddle0, o.paddle1], ∀ border ∈ [top, bottom, left, right],
      ¬ p.rectangle.Overlaps border.rectangle := by
  obtain ⟨hmX0, hmX1, ⟨hsame, hlow, hhigh⟩, -, -⟩ := h
  simp only [List.forall_mem_cons, rectangle_paddle0, rectangle_paddle1, rectangle_top,
    rectangle_bottom, rectangle_left, rectangle_right, hmX0, hmX1, hsame]
  have hnone {P : RectCall → Prop} : ∀ r ∈ ([] : List RectCall), P r := List.forall_mem_nil _
  refine ⟨⟨?_, ?_, ?_, ?_, hnone⟩, ⟨?_, ?_, ?_, ?_, hnone⟩, hnone⟩
  · exact Rectangle.not_overlaps (Or.inr (Or.inr (Or.inr (by norm_num; linarith))))
  · exact Rectangle.not_overlaps (Or.inr (Or.inr (Or.inl (by norm_num; linarith))))
  · exact Rectangle.not_overlaps (Or.inr (Or.inl (by norm_num)))
  · exact Rectangle.not_overlaps (Or.inl (by norm_num))
  · exact Rectangle.not_overlaps (Or.inr (Or.inr (Or.inr (by norm_num; linarith))))
  · exact Rectangle.not_overlaps (Or.inr (Or.inr (Or.inl (by norm_num; linarith))))
  · exact Rectangle.not_overlaps (Or.inr (Or.inl (by norm_num)))
  · exact Rectangle.not_overlaps (Or.inl (by norm_num))

theorem Placed.ball_apart (h : Placed o) :
    ∀ border ∈ [bottom, left, right], ¬ o.ball.rectangle.Overlaps border.rectangle := by
  obtain ⟨-, -, -, ⟨htop, hbottom⟩, hleft, hright⟩ := h
  simp only [List.forall_mem_cons, rectangle_ball, rectangle_bottom, rectangle_left,
    rectangle_right]
  refine ⟨?_, ?_, ?_, List.forall_mem_nil _⟩
  · exact Rectangle.not_overlaps (Or.inr (Or.inr (Or.inl (by linarith))))
  · exact Rectangle.not_overlaps (Or.inr (Or.inl (by linarith)))
  · exact Rectangle.not_overlaps (Or.inl (by linarith))

/-- The ball is drawn round the point that bounces off the walls. -/
theorem Placed.ball_top (h : Placed o) :
    o.ball.rectangle.Overlaps top.rectangle ↔ o.game.mBall.mY < 103 := by
  obtain ⟨-, -, -, ⟨htop, hbottom⟩, hleft, hright⟩ := h
  rw [rectangle_ball, rectangle_top]
  constructor
  · intro hover
    by_contra hlow
    refine Rectangle.not_overlaps (Or.inr (Or.inr (Or.inr ?_))) hover
    linarith
  · intro hlow
    rw [Rectangle.overlaps_iff, max_lt_iff, lt_min_iff, lt_min_iff, max_lt_iff, lt_min_iff,
      lt_min_iff]
    refine ⟨⟨⟨?_, ?_⟩, ?_, ?_⟩, ⟨?_, ?_⟩, ?_, ?_⟩
    all_goals linarith

theorem Placed.inPlace (h : Placed o) : InPlace o where
  onScreen := h.onScreen
  paddles := h.paddles_apart
  paddlesApart := by
    rw [rectangle_paddle0, rectangle_paddle1, h.mX0, h.mX1]
    exact Rectangle.not_overlaps (Or.inl (by norm_num))
  ball := h.ball_apart
  ballTop := h.ball_top
  ballTop_le := by
    have htop := h.walls.1
    rw [rectangle_ball]
    change 97 ≤ o.game.mBall.mY - 3
    linarith

/-- Every state behind a step is one of them. -/
theorem placed_run (keys : List Keys) (k : Keys) :
    Placed ⟨PongGame.run (keys ++ [k]), 250, 1030⟩ := by
  have hsound := PongGame.sound_run (keys ++ [k])
  have hstep : PongGame.run (keys ++ [k]) = (PongGame.run keys).logic k := by
    rw [PongGame.run, List.foldl_append]
    rfl
  obtain ⟨n, hlo, hhi, hX⟩ := hsound.track.place
  have hlo' : (-54 : ℚ) ≤ n := by exact_mod_cast hlo
  have hhi' : (n : ℚ) ≤ 54 := by exact_mod_cast hhi
  refine ⟨rfl, rfl, hsound.paddles, ?_, ?_, ?_⟩
  · change PongGame.BetweenWalls (PongGame.run (keys ++ [k]))
    rw [hstep]
    exact PongGame.betweenWalls_logic k (PongGame.run keys)
  · change 208 ≤ (PongGame.run (keys ++ [k])).mBall.mX
    linarith
  · change (PongGame.run (keys ++ [k])).mBall.mX ≤ 1072
    linarith

end PongObject

/-! ### Whole runs -/

namespace PongSession

variable {D P Q : Type*} {getProjectionMatrix : P → Q}

theorem new_eq : PongObject.new = ⟨PongGame.reset, 250, 1030⟩ := by
  norm_num [PongObject.new, Draw.screenW]

/-- Once started, the frames step the game and leave the rest. -/
theorem run_of_started (frames : List (Frame D P)) (m : Option UInt64) (n : ℕ) (o : PongObject) :
    run getProjectionMatrix frames ⟨true, m, n, true, o⟩ =
      ⟨true, m, n, true,
        { o with game := (frames.map Frame.keys).foldl (fun g k => g.logic k) o.game }⟩ := by
  induction frames generalizing o with
  | nil => rfl
  | cons f frames ih => exact ih (o.logic f.keys)

theorem run_start (f : Frame D P) (frames : List (Frame D P)) (m : Option UInt64)
    (o : PongObject) :
    run getProjectionMatrix (f :: frames) (start m o) =
      ⟨true, some f.hidSharedMemory, 1, true,
        ⟨PongGame.run ((f :: frames).map Frame.keys), 250, 1030⟩⟩ := by
  have hfirst : run getProjectionMatrix (f :: frames) (start m o) =
      run getProjectionMatrix frames
        ⟨true, some f.hidSharedMemory, 1, true, PongObject.new.logic f.keys⟩ := rfl
  rw [hfirst, run_of_started, new_eq]
  rfl

/-- What a frame draws of a game, where `drawColorQuad` tells what is filled of a quad. -/
structure Draws (drawColorQuad : ColorQuad ℚ D Color4f Q → Set (Fin 3 → ℚ))
    (getProjectionMatrix : P → Q) (f : Frame D P) (o : PongObject) (picture : Picture D Q) :
    Prop where
  quads : picture.quads =
    o.rects.map fun r => drawRect getProjectionMatrix f.info r.pos r.size r.color
  texts : picture.texts = o.texts
  inPlace : o.InPlace
  filled : Draw.Upright f.info.cameraMatrix → ∀ r ∈ o.rects,
    drawColorQuad (drawRect getProjectionMatrix f.info r.pos r.size r.color) =
      Set.image (fun p => Draw.matrixPoint f.info.cameraMatrix (Draw.fromCentre p))
        r.rectangle.points

theorem size_pos {o : PongObject} {r : RectCall} (hr : r ∈ o.rects) :
    0 < r.size.x ∧ 0 < r.size.y := by
  have hall : ∀ r ∈ o.rects, 0 < r.size.x ∧ 0 < r.size.y := by
    have hw : (0 : ℚ) < Draw.screenW := by norm_num [Draw.screenW]
    have hh : (0 : ℚ) < Draw.screenH := by norm_num [Draw.screenH]
    have hgameW : 0 < gameW := by norm_num [Draw.screenW]
    have hgameH : 0 < gameH := by norm_num [Draw.screenH]
    simp only [PongObject.rects, List.forall_mem_cons]
    refine ⟨⟨hw, hh⟩, ⟨hgameW, ?_⟩, ⟨hgameW, ?_⟩, ⟨?_, hgameH⟩, ⟨?_, hgameH⟩, ⟨?_, ?_⟩, ⟨?_, ?_⟩,
      ⟨?_, ?_⟩, List.forall_mem_nil _⟩
    all_goals norm_num [PongObject.top, PongObject.bottom, PongObject.left, PongObject.right,
      PongObject.paddle0, PongObject.paddle1, PongObject.ball, PongPlayer.render, PongBall.render]
  exact hall r hr

theorem draws_render {drawColorQuad : ColorQuad ℚ D Color4f Q → Set (Fin 3 → ℚ)}
    (hfills : Draw.FillsSquares drawColorQuad) {o : PongObject} (h : o.InPlace) (f : Frame D P) :
    Draws drawColorQuad getProjectionMatrix f o (render getProjectionMatrix f.info o) where
  quads := rfl
  texts := rfl
  inPlace := h
  filled hcam r hr :=
    hcam.filled_drawRect hfills (size_pos hr).1 (size_pos hr).2 getProjectionMatrix r.color

/-- Every frame shows the game that its keys and those of the frames before have made, each thing in
its place. -/
theorem draws_hook {drawColorQuad : ColorQuad ℚ D Color4f Q → Set (Fin 3 → ℚ)}
    (hfills : Draw.FillsSquares drawColorQuad) (getProjectionMatrix : P → Q) (m : Option UInt64)
    (o : PongObject) (before : List (Frame D P)) (f : Frame D P) :
    (miniGameEtcDrawHook getProjectionMatrix f
        (run getProjectionMatrix before (start m o))).1 =
      ⟨true, some (before.head?.getD f).hidSharedMemory, 1, true,
        ⟨PongGame.run ((before ++ [f]).map Frame.keys), 250, 1030⟩⟩ ∧
    Draws drawColorQuad getProjectionMatrix f
      ⟨PongGame.run ((before ++ [f]).map Frame.keys), 250, 1030⟩
      (miniGameEtcDrawHook getProjectionMatrix f
        (run getProjectionMatrix before (start m o))).2 := by
  have hrun : (miniGameEtcDrawHook getProjectionMatrix f
      (run getProjectionMatrix before (start m o))).1 =
        run getProjectionMatrix (before ++ [f]) (start m o) := by
    rw [run, run, List.foldl_append]
    rfl
  have hstate : (miniGameEtcDrawHook getProjectionMatrix f
      (run getProjectionMatrix before (start m o))).1 =
        ⟨true, some (before.head?.getD f).hidSharedMemory, 1, true,
          ⟨PongGame.run ((before ++ [f]).map Frame.keys), 250, 1030⟩⟩ := by
    rw [hrun]
    cases before with
    | nil => exact run_start f [] m o
    | cons first before => exact run_start first (before ++ [f]) m o
  refine ⟨hstate, ?_⟩
  have hplaced := PongObject.placed_run (before.map Frame.keys) f.keys
  have hkeys : before.map Frame.keys ++ [f.keys] = (before ++ [f]).map Frame.keys := by
    rw [List.map_append]
    rfl
  rw [hkeys] at hplaced
  have hpicture : (miniGameEtcDrawHook getProjectionMatrix f
      (run getProjectionMatrix before (start m o))).2 =
        render getProjectionMatrix f.info (miniGameEtcDrawHook getProjectionMatrix f
          (run getProjectionMatrix before (start m o))).1.pongGame := rfl
  rw [hpicture, hstate]
  exact draws_render hfills hplaced.inPlace f

end PongSession

/-- What a matrix makes of the square of side 1. -/
def squareOf (q : ColorQuad ℚ Unit Color4f Unit) : Set (Fin 3 → ℚ) :=
  Set.image (Draw.matrixPoint q.matrix) Rectangle.unitSquare

/-- A frame without keys, the camera looking straight on the plane. -/
def plainFrame : Frame Unit Unit :=
  ⟨⟨(), ![![1, 0, 0, 0], ![0, -1, 0, 0], ![0, 0, 1, 0]], ()⟩, ⟨false, false, false⟩, 0x1000⟩

/-- The second frame of a game, with the image of the left paddle's rectangle. -/
theorem PongSession.draws_hook_second :
    let o : PongObject := ⟨PongGame.run [plainFrame.keys, plainFrame.keys], 250, 1030⟩
    let hook := miniGameEtcDrawHook id plainFrame (run id [plainFrame] (start none .new))
    hook.1 = ⟨true, some 0x1000, 1, true, o⟩ ∧ hook.2.quads.length = 8 ∧
      squareOf (drawRect id plainFrame.info o.paddle0.pos o.paddle0.size o.paddle0.color) =
        Set.image (fun p => Draw.matrixPoint plainFrame.info.cameraMatrix (Draw.fromCentre p))
          (⟨250, 100, 8, 100⟩ : Rectangle ℚ).points := by
  intro o hook
  obtain ⟨hstate, hdraws⟩ :=
    draws_hook (show Draw.FillsSquares squareOf from fun _ => rfl) id none .new [plainFrame]
      plainFrame
  refine ⟨hstate, ?_, ?_⟩
  · rw [hdraws.quads, List.length_map]
    rfl
  · have hpaddle : o.paddle0.rectangle = ⟨250, 100, 8, 100⟩ := by
      decide +kernel
    rw [← hpaddle]
    exact hdraws.filled (by decide) o.paddle0 (by simp [PongObject.rects, o])

end Sp2Module.Pong
