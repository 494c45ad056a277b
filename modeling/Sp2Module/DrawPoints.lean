import Sp2Module.Draw
import Sp2Module.Rectangle

/-!
# What is drawn of a rectangle

What the drawing functions of the game fill is not known here but for what `DrawRect` and
`DrawRectLight` rely on: a triangle between its corners, and a square of side 1 under a matrix.
`DrawRectLight` cuts a rectangle into two triangles, which fill it and share its diagonal only. The
quad of `DrawRect` is the camera's image of the rectangle, where the camera has no part below its
diagonal.
-/

namespace Sp2Module.Draw

variable {K D P Q C : Type*} [Field K]

structure Vector3 (K : Type*) where
  x : K
  y : K
  z : K

/-- The arguments of `drawTriangleImm`. -/
structure TriangleImm (K D C : Type*) where
  drawContext : D
  vec1 : Vector3 K
  vec2 : Vector3 K
  vec3 : Vector3 K
  color : C

def drawTriangle (drawCtx : D) (pos1 pos2 pos3 : Vector2 K) (color : C) : TriangleImm K D C :=
  ⟨drawCtx, ⟨pos1.x, pos1.y, 0⟩, ⟨pos2.x, pos2.y, 0⟩, ⟨pos3.x, pos3.y, 0⟩, color⟩

def drawRectLight (drawCtx : D) (x y w h : K) (color : C) : List (TriangleImm K D C) :=
  let pos1 : Vector2 K := ⟨x, y⟩
  let pos2 : Vector2 K := ⟨x + w, y⟩
  let pos3 : Vector2 K := ⟨x, y + h⟩
  let pos4 : Vector2 K := ⟨x + w, y + h⟩
  [drawTriangle drawCtx pos1 pos2 pos3 color, drawTriangle drawCtx pos2 pos3 pos4 color]

/-- A point of the screen seen from its centre. -/
def fromCentre (p : K × K) : K × K := (p.1 - (screenW / 2 : ℕ), p.2 - (screenH / 2 : ℕ))

def rectangle (pos size : Vector2 K) : Rectangle K := ⟨pos.x, pos.y, size.x, size.y⟩

theorem Upright.nothingCarried {cam : Matrix34 K} (h : Upright cam) (m : Matrix34 K) :
    NothingCarried cam m := by
  obtain ⟨h10, h20, h21⟩ := h
  rw [NothingCarried, h10, h20, h21, zero_smul, zero_smul]
  exact ⟨rfl, add_zero 0⟩

theorem Upright.matrix_drawRect {info : RenderInfo K D P} (h : Upright info.cameraMatrix)
    (getProjectionMatrix : P → Q) (pos size : Vector2 K) (color : C) :
    (drawRect getProjectionMatrix info pos size color).matrix =
      cameraProduct info.cameraMatrix (rectMatrix pos size) := by
  rw [Draw.matrix_drawRect, ← affine_eq_cameraProduct, sweep_eq_affine_iff, carried_eq_zero_iff]
  exact h.nothingCarried _

/-- The matrix of a rectangle stretches the square, moves it to the rectangle, and sees it from the
centre and the camera. -/
theorem matrixPoint_cameraProduct (cam : Matrix34 K) (pos size : Vector2 K) (p : K × K) :
    matrixPoint (cameraProduct cam (rectMatrix pos size)) p =
      matrixPoint cam (fromCentre
        (size.x * p.1 + (pos.x + size.x / 2), size.y * p.2 + (pos.y + size.y / 2))) := by
  funext i
  change (cam i 0 * size.x + cam i 1 * 0 + cam i 2 * 0 + 0) * p.1 +
      (cam i 0 * 0 + cam i 1 * size.y + cam i 2 * 0 + 0) * p.2 +
        (cam i 0 * (pos.x + size.x / 2 - (screenW / 2 : ℕ)) +
          cam i 1 * (pos.y + size.y / 2 - (screenH / 2 : ℕ)) + cam i 2 * 0 + cam i 3) =
    cam i 0 * (size.x * p.1 + (pos.x + size.x / 2) - (screenW / 2 : ℕ)) +
      cam i 1 * (size.y * p.2 + (pos.y + size.y / 2) - (screenH / 2 : ℕ)) + cam i 3
  ring

section ordered

variable [LinearOrder K]

/-- A triangle that lies in the plane is filled between its corners. -/
def FillsTriangles (drawTriangleImm : TriangleImm K D C → Set (K × K)) : Prop :=
  ∀ t, t.vec1.z = 0 → t.vec2.z = 0 → t.vec3.z = 0 → drawTriangleImm t =
    Rectangle.triangle (t.vec1.x, t.vec1.y) (t.vec2.x, t.vec2.y) (t.vec3.x, t.vec3.y)

/-- A quad is filled where the matrix takes the square of side 1 round the origin. -/
def FillsSquares (drawColorQuad : ColorQuad K D C Q → Set (Fin 3 → K)) : Prop :=
  ∀ q, drawColorQuad q = Set.image (matrixPoint q.matrix) Rectangle.unitSquare

variable [IsStrictOrderedRing K]

/-- The quad of `DrawRect` is the camera's image of the rectangle. -/
theorem Upright.filled_drawRect {drawColorQuad : ColorQuad K D C Q → Set (Fin 3 → K)}
    (hfills : FillsSquares drawColorQuad) {info : RenderInfo K D P} {pos size : Vector2 K}
    (h : Upright info.cameraMatrix) (hw : 0 < size.x) (hh : 0 < size.y)
    (getProjectionMatrix : P → Q) (color : C) :
    drawColorQuad (drawRect getProjectionMatrix info pos size color) =
      Set.image (fun p => matrixPoint info.cameraMatrix (fromCentre p))
        (rectangle pos size).points := by
  have hsquare := Rectangle.image_unitSquare (r := rectangle pos size) hw hh
  rw [← hsquare, Set.image_image, hfills, h.matrix_drawRect]
  congr 1
  funext p
  exact matrixPoint_cameraProduct info.cameraMatrix pos size p

/-- The triangles of `DrawRectLight` fill the rectangle, lie in the plane and share the diagonal. -/
theorem drawRectLight_filled {drawTriangleImm : TriangleImm K D C → Set (K × K)}
    (hfills : FillsTriangles drawTriangleImm) {w h : K} (hw : 0 < w) (hh : 0 < h) (drawCtx : D)
    (x y : K) (color : C) :
    ∃ lower upper : TriangleImm K D C, drawRectLight drawCtx x y w h color = [lower, upper] ∧
      (∀ t ∈ [lower, upper], t.drawContext = drawCtx ∧ t.color = color ∧
        t.vec1.z = 0 ∧ t.vec2.z = 0 ∧ t.vec3.z = 0) ∧
      drawTriangleImm lower ∪ drawTriangleImm upper = (⟨x, y, w, h⟩ : Rectangle K).points ∧
        drawTriangleImm lower ∩ drawTriangleImm upper = segment K (x + w, y) (x, y + h) := by
  refine ⟨_, _, rfl, ?_, ?_, ?_⟩
  · simp [drawTriangle]
  · have hunion := Rectangle.lower_union_upper (r := ⟨x, y, w, h⟩) hw hh
    simp only [Rectangle.point, mul_zero, mul_one, add_zero] at hunion
    rw [hfills _ rfl rfl rfl, hfills _ rfl rfl rfl]
    exact hunion
  · have hinter := Rectangle.lower_inter_upper (r := ⟨x, y, w, h⟩) hw hh
    simp only [Rectangle.point, mul_zero, mul_one, add_zero] at hinter
    rw [hfills _ rfl rfl rfl, hfills _ rfl rfl rfl]
    exact hinter

end ordered

/-- The weighted means of the corners. -/
def cornersOf (t : TriangleImm ℚ Unit Unit) : Set (ℚ × ℚ) :=
  Rectangle.triangle (t.vec1.x, t.vec1.y) (t.vec2.x, t.vec2.y) (t.vec3.x, t.vec3.y)

/-- The whole screen. -/
theorem drawRectLight_filled_screen :
    ∃ lower upper : TriangleImm ℚ Unit Unit, drawRectLight () 0 0 1280 720 () = [lower, upper] ∧
      (∀ t ∈ [lower, upper], t.drawContext = () ∧ t.color = () ∧
        t.vec1.z = 0 ∧ t.vec2.z = 0 ∧ t.vec3.z = 0) ∧
      cornersOf lower ∪ cornersOf upper = (⟨0, 0, 1280, 720⟩ : Rectangle ℚ).points ∧
        cornersOf lower ∩ cornersOf upper = segment ℚ (0 + 1280, 0) (0, 0 + 720) :=
  drawRectLight_filled (fun _ _ _ _ => rfl) (by decide) (by decide) () 0 0 ()

end Sp2Module.Draw
