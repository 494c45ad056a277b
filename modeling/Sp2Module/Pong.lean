import Sp2Module.Draw
import Mathlib.Data.Rat.Cast.Order
import Mathlib.Algebra.Order.Field.Rat
import Mathlib.Tactic.Linarith
import Mathlib.Tactic.NormNum
import Mathlib.Tactic.Positivity

/-!
# The state of Pong

`Logic` moves the paddles and the ball, bounces the ball off the walls, puts it back to the centre
at a goal, and turns it round at a paddle. The float operations are those of the rational numbers.
The ball stays on places 8 apart, of which each paddle covers one, and behind a paddle it only moves
on to the goal. The fields that are only drawn are left out.
-/

namespace Sp2Module.Pong

open Draw (Vector2)

/-! ### The game -/

@[simp] def playerSpeed : ℚ := 10
@[simp] def ballSpeed : ℚ := 8
@[simp] def ballSize : ℚ := 6
@[simp] def playerH : ℚ := 100
@[simp] def playerW : ℚ := 8
@[simp] def playerOff : ℚ := 50
@[simp] def gameX : ℚ := 200
@[simp] def gameY : ℚ := 100
@[simp] def screenW : ℚ := Draw.screenW
@[simp] def screenH : ℚ := Draw.screenH
@[simp] def gameW : ℚ := screenW - gameX * 2
@[simp] def gameH : ℚ := screenH - gameY * 2

structure PongBall where
  mDirection : Vector2 ℚ
  mX : ℚ
  mY : ℚ

structure PongPlayer where
  mY : ℚ
  mScore : ℤ

structure PongGame where
  player0 : PongPlayer
  player1 : PongPlayer
  mBall : PongBall

/-- The keys that are looked at: B in `kDown`, the other two in `kHeld`. -/
structure Keys where
  b : Bool
  up : Bool
  down : Bool
deriving DecidableEq, Repr

/-- `PongBall::Reset`; the two halves are whole numbers. -/
def resetBall (startVec : Vector2 ℚ) : PongBall := ⟨startVec, screenW / 2, screenH / 2⟩

/-- `PongPlayer::Reset`. -/
def resetPlayer : PongPlayer := ⟨gameY, 0⟩

namespace PongGame

/-- `PongGame::Reset`, which sets everything. -/
def reset : PongGame := ⟨resetPlayer, resetPlayer, resetBall ⟨1, 0⟩⟩

def setPlayersY (y : ℚ) (g : PongGame) : PongGame :=
  { g with player0 := { g.player0 with mY := y }, player1 := { g.player1 with mY := y } }

def holdUp (k : Keys) (g : PongGame) : PongGame :=
  if k.up ∧ ¬ k.down then
    let y := g.player0.mY + playerSpeed
    g.setPlayersY (if y ≥ (gameY + gameH) - playerH then (gameY + gameH) - playerH else y)
  else g

def holdDown (k : Keys) (g : PongGame) : PongGame :=
  if k.down ∧ ¬ k.up then
    let y := g.player0.mY - playerSpeed
    g.setPlayersY (if y ≤ gameY then gameY else y)
  else g

def moveBall (g : PongGame) : PongGame :=
  let ball := g.mBall
  { g with mBall := { ball with
    mX := ball.mX + ball.mDirection.x * ballSpeed
    mY := ball.mY + ball.mDirection.y * ballSpeed } }

/-- The ball stopped at a wall at height `y`, its vertical direction turned round. -/
def bounceAt (y : ℚ) (g : PongGame) : PongGame :=
  { g with mBall := { g.mBall with
    mY := y
    mDirection := { g.mBall.mDirection with y := -g.mBall.mDirection.y } } }

def bounceBottom (g : PongGame) : PongGame :=
  if g.mBall.mY ≥ (gameY + gameH) - ballSize then g.bounceAt ((gameY + gameH) - ballSize) else g

def bounceTop (g : PongGame) : PongGame :=
  if g.mBall.mY ≤ gameY then g.bounceAt gameY else g

/-- The ball behind the right paddle: player 0 scores. -/
def RightGoal (g : PongGame) : Prop := g.mBall.mX ≥ (gameX + gameW) - ballSize

/-- The ball behind the left paddle: player 1 scores. -/
def LeftGoal (g : PongGame) : Prop := g.mBall.mX ≤ gameX

instance (g : PongGame) : Decidable g.RightGoal := inferInstanceAs (Decidable (_ ≥ _))
instance (g : PongGame) : Decidable g.LeftGoal := inferInstanceAs (Decidable (_ ≤ _))

def countRight (g : PongGame) : PongGame :=
  if g.RightGoal then
    { g with
      mBall := resetBall ⟨-1, 0⟩
      player0 := { g.player0 with mScore := g.player0.mScore + 1 } }
  else g

def countLeft (g : PongGame) : PongGame :=
  if g.LeftGoal then
    { g with
      mBall := resetBall ⟨1, 0⟩
      player1 := { g.player1 with mScore := g.player1.mScore + 1 } }
  else g

/-- The ball in the columns of the two paddles. -/
def InColumn0 (g : PongGame) : Prop :=
  g.mBall.mX > gameX + playerOff ∧ g.mBall.mX ≤ gameX + playerOff + playerW
def InColumn1 (g : PongGame) : Prop :=
  g.mBall.mX ≥ gameX + gameW - playerOff ∧ g.mBall.mX < gameX + gameW - playerOff + playerW

instance (g : PongGame) : Decidable g.InColumn0 := inferInstanceAs (Decidable (_ ∧ _))
instance (g : PongGame) : Decidable g.InColumn1 := inferInstanceAs (Decidable (_ ∧ _))

/-- The ball at the height of a paddle. -/
def AtPaddle (p : PongPlayer) (g : PongGame) : Prop :=
  g.mBall.mY ≥ p.mY ∧ g.mBall.mY < p.mY + playerH

instance (p : PongPlayer) (g : PongGame) : Decidable (g.AtPaddle p) :=
  inferInstanceAs (Decidable (_ ∧ _))

/-- The ball turned round by a paddle, the steeper the smaller `slope` is. -/
def turnBack (p : PongPlayer) (slope : ℚ) (g : PongGame) : PongGame :=
  let midDistance := playerH / 2 - (g.mBall.mY - p.mY)
  { g with mBall := { g.mBall with
    mDirection := ⟨-g.mBall.mDirection.x, -(midDistance / slope)⟩ } }

def Hits0 (g : PongGame) : Prop := g.InColumn0 ∧ g.AtPaddle g.player0
def Hits1 (g : PongGame) : Prop := g.InColumn1 ∧ g.AtPaddle g.player1

instance (g : PongGame) : Decidable g.Hits0 := inferInstanceAs (Decidable (_ ∧ _))
instance (g : PongGame) : Decidable g.Hits1 := inferInstanceAs (Decidable (_ ∧ _))

def hitPlayer0 (g : PongGame) : PongGame := if g.Hits0 then g.turnBack g.player0 70 else g
def hitPlayer1 (g : PongGame) : PongGame := if g.Hits1 then g.turnBack g.player1 30 else g

def restart (k : Keys) (g : PongGame) : PongGame := if k.b then reset else g

/-- `Logic` up to the goals. -/
def beforeGoals (k : Keys) (g : PongGame) : PongGame :=
  ((((g.restart k).holdUp k).holdDown k).moveBall).bounceBottom.bounceTop

/-- `Logic` up to the paddles. -/
def beforeHits (k : Keys) (g : PongGame) : PongGame := (g.beforeGoals k).countRight.countLeft

def logic (k : Keys) (g : PongGame) : PongGame := (g.beforeHits k).hitPlayer0.hitPlayer1

/-- The game behind a number of steps. -/
def run (keys : List Keys) : PongGame := keys.foldl (fun g k => g.logic k) reset

end PongGame

end Sp2Module.Pong
