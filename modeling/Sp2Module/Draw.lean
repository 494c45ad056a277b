import Sp2Module.RowSweep
import Mathlib.Algebra.Field.Defs
import Mathlib.Algebra.Module.Pi
import Mathlib.Data.Fin.VecNotation
import Mathlib.Data.Rat.Defs
import Mathlib.Tactic.FinCases
import Mathlib.Tactic.Ring

/-!
# Drawing a rectangle

`DrawRect` multiplies the matrix of a rectangle by the one of the camera, a row at a time, into the
matrix it reads from. The float operations are those of a field. The result is the affine product
exactly when the camera does not pass the change of a row on to a later one.
-/

namespace Sp2Module.Draw

variable {K D P Q C : Type*} [Field K]

structure Vector2 (K : Type*) where
  x : K
  y : K

abbrev Float32x4 (K : Type*) := Fin 4 → K

abbrev Matrix34 (K : Type*) := Fin 3 → Fin 4 → K

def vmlaqLaneF32 (a b : Float32x4 K) (v : K) : Float32x4 K := fun i => a i + b i * v

def vmulqNF32 (a : Float32x4 K) (b : K) : Float32x4 K := fun i => a i * b

def vaddqF32 (a b : Float32x4 K) : Float32x4 K := fun i => a i + b i

def screenW : ℕ := 1280
def screenH : ℕ := 720

/-- What is read of the `RenderInfo`. -/
structure RenderInfo (K D P : Type*) where
  drawContext : D
  cameraMatrix : Matrix34 K
  projection : P

/-- The arguments of `drawColorQuad`. -/
structure ColorQuad (K D C Q : Type*) where
  drawContext : D
  color : C
  matrix : Matrix34 K
  projMatrix : Q

/-- The size of the rectangle, and its centre seen from the centre of the screen. -/
def rectMatrix (pos size : Vector2 K) : Matrix34 K :=
  let x := (pos.x + size.x / 2) - (screenW / 2 : ℕ)
  let y := (pos.y + size.y / 2) - (screenH / 2 : ℕ)
  ![![size.x, 0, 0, x], ![0, size.y, 0, y], ![0, 0, 1, 0]]

/-- One turn of the loop, over the matrix as the turns before have left it. -/
def transformRow (cam m : Matrix34 K) (i : Fin 3) : Matrix34 K :=
  let temp := vmulqNF32 (m 0) (cam i 0)
  let temp := vmlaqLaneF32 temp (m 1) (cam i 1)
  let temp := vmlaqLaneF32 temp (m 2) (cam i 2)
  let f1 := ![0, 0, 0, cam i 3]
  Function.update m i (vaddqF32 f1 temp)

def drawRect (getProjectionMatrix : P → Q) (info : RenderInfo K D P) (pos size : Vector2 K)
    (color : C) : ColorQuad K D C Q where
  drawContext := info.drawContext
  color := color
  matrix := (List.finRange 3).foldl (transformRow info.cameraMatrix) (rectMatrix pos size)
  projMatrix := getProjectionMatrix info.projection

/-- The affine product of the camera and a matrix. -/
def cameraProduct (cam m : Matrix34 K) (i : Fin 3) : Float32x4 K :=
  cam i 0 • m 0 + cam i 1 • m 1 + cam i 2 • m 2 + ![0, 0, 0, cam i 3]

/-- How much the camera changes a row. -/
def rowChange (cam m : Matrix34 K) (i : Fin 3) : Float32x4 K := cameraProduct cam m i - m i

/-- The second and the third row see no change of the rows before them. -/
def NothingCarried (cam m : Matrix34 K) : Prop :=
  cam 1 0 • rowChange cam m 0 = 0 ∧
    cam 2 0 • rowChange cam m 0 + cam 2 1 • rowChange cam m 1 = 0

/-- The factors of the rows. -/
def linearPart (cam : Matrix34 K) (i j : Fin 3) : K := cam i j.castSucc

/-- What is added to each row. -/
def translation (cam : Matrix34 K) (i : Fin 3) : Float32x4 K := ![0, 0, 0, cam i 3]

theorem affine_eq_cameraProduct (cam m : Matrix34 K) :
    affine (linearPart cam) (translation cam) m = cameraProduct cam m := by
  funext i
  rw [affine, Fin.sum_univ_three, cameraProduct, add_comm]
  rfl

theorem transformRow_eq_sweepStep (cam m : Matrix34 K) (i : Fin 3) :
    transformRow cam m i = sweepStep (linearPart cam) (translation cam) m i := by
  rw [sweepStep, affine_eq_cameraProduct, transformRow]
  congr 1
  funext k
  simp only [vaddqF32, vmlaqLaneF32, vmulqNF32, cameraProduct, Pi.add_apply, Pi.smul_apply,
    smul_eq_mul]
  ring

theorem matrix_drawRect (getProjectionMatrix : P → Q) (info : RenderInfo K D P)
    (pos size : Vector2 K) (color : C) :
    (drawRect getProjectionMatrix info pos size color).matrix =
      sweep (linearPart info.cameraMatrix) (translation info.cameraMatrix)
        (rectMatrix pos size) := by
  have hstep : transformRow info.cameraMatrix =
      sweepStep (linearPart info.cameraMatrix) (translation info.cameraMatrix) := by
    funext m i
    exact transformRow_eq_sweepStep info.cameraMatrix m i
  rw [drawRect, hstep, sweep]

theorem carried_eq_zero_iff (cam m : Matrix34 K) :
    (∀ i, carried (linearPart cam) (translation cam) m i = 0) ↔ NothingCarried cam m := by
  simp only [Fin.forall_fin_succ, carried, Fin.sum_univ_three, affine_eq_cameraProduct]
  simp [NothingCarried, linearPart, rowChange]

/-- `DrawRect` passes the affine product on exactly when no change of a row is carried to a later
one. -/
theorem drawRect_matrix_iff (getProjectionMatrix : P → Q) (info : RenderInfo K D P)
    (pos size : Vector2 K) (color : C) :
    (drawRect getProjectionMatrix info pos size color).matrix =
        cameraProduct info.cameraMatrix (rectMatrix pos size) ↔
      NothingCarried info.cameraMatrix (rectMatrix pos size) := by
  rw [matrix_drawRect, ← affine_eq_cameraProduct, sweep_eq_affine_iff, carried_eq_zero_iff]

/-- A camera that is turned by a right angle. -/
def turnedInfo : RenderInfo ℚ Unit Unit :=
  ⟨(), ![![0, -1, 0, 0], ![1, 0, 0, 0], ![0, 0, 1, 0]], ()⟩

/-- The second row of a rectangle at the centre of the screen is taken from the new first row. -/
theorem drawRect_matrix_turned :
    (drawRect id turnedInfo ⟨639, 358⟩ ⟨2, 4⟩ ()).matrix 1 = ![0, -4, 0, 0] ∧
      cameraProduct turnedInfo.cameraMatrix (rectMatrix ⟨639, 358⟩ ⟨2, 4⟩) 1 = ![2, 0, 0, 0] ∧
      ¬ ∀ (info : RenderInfo ℚ Unit Unit) (pos size : Vector2 ℚ),
        (drawRect id info pos size ()).matrix =
          cameraProduct info.cameraMatrix (rectMatrix pos size) := by
  have hcode : (drawRect id turnedInfo ⟨639, 358⟩ ⟨2, 4⟩ ()).matrix 1 = ![0, -4, 0, 0] := by
    decide +kernel
  have hclaim : cameraProduct turnedInfo.cameraMatrix (rectMatrix ⟨639, 358⟩ ⟨2, 4⟩) 1 =
      ![2, 0, 0, 0] := by
    decide +kernel
  refine ⟨hcode, hclaim, fun h => ?_⟩
  have hrow := congrFun (h turnedInfo ⟨639, 358⟩ ⟨2, 4⟩) 1
  rw [hcode, hclaim] at hrow
  revert hrow
  decide +kernel

/-! ### Cameras and points of the plane -/

/-- The camera adds nothing of a row to a later one. -/
def Upright (cam : Matrix34 K) : Prop := cam 1 0 = 0 ∧ cam 2 0 = 0 ∧ cam 2 1 = 0

instance [DecidableEq K] (cam : Matrix34 K) : Decidable (Upright cam) :=
  inferInstanceAs (Decidable (_ ∧ _))

/-- A point of the plane under a matrix. -/
def matrixPoint (m : Matrix34 K) (p : K × K) (i : Fin 3) : K :=
  m i 0 * p.1 + m i 1 * p.2 + m i 3

end Sp2Module.Draw
