import Mathlib.Algebra.Order.Group.Pointwise.Interval
import Mathlib.Analysis.Convex.Segment
import Mathlib.Tactic.Linarith
import Mathlib.Tactic.Ring

/-!
# Rectangles

Rectangles with horizontal and vertical edges over an ordered field: which of them overlap, which
lie in another one, what they are the images of, and the two triangles that a diagonal cuts one
into.
-/

namespace Sp2Module

structure Rectangle (K : Type*) where
  x : K
  y : K
  w : K
  h : K
deriving DecidableEq

namespace Rectangle

variable {K : Type*} [Field K] [LinearOrder K] {r r' : Rectangle K} {p q s t : K × K}

def points (r : Rectangle K) : Set (K × K) :=
  Set.Icc r.x (r.x + r.w) ×ˢ Set.Icc r.y (r.y + r.h)

/-- The points that are not on an edge. -/
def inner (r : Rectangle K) : Set (K × K) :=
  Set.Ioo r.x (r.x + r.w) ×ˢ Set.Ioo r.y (r.y + r.h)

/-- Two rectangles that share more than edges. -/
def Overlaps (r r' : Rectangle K) : Prop := (r.inner ∩ r'.inner).Nonempty

/-- The square of side 1 round the origin. -/
def unitSquare : Set (K × K) := {p | p + p ∈ Set.Icc (-1) 1}

/-- The point that is `u` of the width and `v` of the height away from the corner. -/
def point (r : Rectangle K) (u v : K) : K × K := (r.x + r.w * u, r.y + r.h * v)

/-- The weighted means of three points. -/
def triangle (p q s : K × K) : Set (K × K) :=
  {t | ∃ a b c : K, 0 ≤ a ∧ 0 ≤ b ∧ 0 ≤ c ∧ a + b + c = 1 ∧ t = a • p + b • q + c • s}

theorem points_subset (hx : r'.x ≤ r.x) (hw : r.x + r.w ≤ r'.x + r'.w) (hy : r'.y ≤ r.y)
    (hh : r.y + r.h ≤ r'.y + r'.h) : r.points ⊆ r'.points :=
  Set.prod_mono (Set.Icc_subset_Icc hx hw) (Set.Icc_subset_Icc hy hh)

variable [IsStrictOrderedRing K]

theorem overlaps_iff : r.Overlaps r' ↔
    max r.x r'.x < min (r.x + r.w) (r'.x + r'.w) ∧
      max r.y r'.y < min (r.y + r.h) (r'.y + r'.h) := by
  rw [Overlaps, inner, inner, Set.prod_inter_prod, Set.Ioo_inter_Ioo, Set.Ioo_inter_Ioo,
    Set.prod_nonempty_iff, Set.nonempty_Ioo, Set.nonempty_Ioo]

/-- Rectangles beside each other. -/
theorem not_overlaps (hapart : r.x + r.w ≤ r'.x ∨ r'.x + r'.w ≤ r.x ∨ r.y + r.h ≤ r'.y ∨
    r'.y + r'.h ≤ r.y) : ¬ r.Overlaps r' := by
  rw [overlaps_iff, max_lt_iff, lt_min_iff, lt_min_iff, max_lt_iff, lt_min_iff, lt_min_iff]
  rintro ⟨⟨⟨-, hx⟩, hx', -⟩, ⟨-, hy⟩, hy', -⟩
  rcases hapart with h | h | h | h
  · exact absurd hx' h.not_gt
  · exact absurd hx h.not_gt
  · exact absurd hy' h.not_gt
  · exact absurd hy h.not_gt

theorem unitSquare_eq :
    (unitSquare : Set (K × K)) = Set.Icc (-(1 / 2)) (1 / 2) ×ˢ Set.Icc (-(1 / 2)) (1 / 2) := by
  have hside (a : K) : a ∈ Set.Icc (-(1 / 2)) (1 / 2) ↔ a + a ∈ Set.Icc (-1) 1 := by
    rw [Set.mem_Icc, Set.mem_Icc]
    constructor
    · rintro ⟨hlow, hhigh⟩
      constructor <;> linarith
    · rintro ⟨hlow, hhigh⟩
      constructor <;> linarith
  ext p
  rw [Set.mem_prod, hside, hside]
  constructor
  · rintro ⟨⟨hx, hy⟩, hx', hy'⟩
    exact ⟨⟨hx, hx'⟩, hy, hy'⟩
  · rintro ⟨⟨hx, hx'⟩, hy, hy'⟩
    exact ⟨⟨hx, hy⟩, hx', hy'⟩

/-- The square is stretched and moved. -/
theorem image_unitSquare (hw : 0 < r.w) (hh : 0 < r.h) :
    Set.image (fun p : K × K => (r.w * p.1 + (r.x + r.w / 2), r.h * p.2 + (r.y + r.h / 2)))
      unitSquare = r.points := by
  have hside {a b : K} (ha : 0 < a) : Set.image (fun t => a * t + (b + a / 2))
      (Set.Icc (-(1 / 2)) (1 / 2)) = Set.Icc b (b + a) := by
    rw [Set.image_affine_Icc' ha]
    congr 1 <;> ring
  rw [unitSquare_eq, points, ← hside hw, ← hside hh, Set.prod_image_image_eq]

/-! ### The two triangles of a rectangle -/

theorem mem_points_iff (hw : 0 < r.w) (hh : 0 < r.h) : t ∈ r.points ↔
    ∃ u v : K, 0 ≤ u ∧ u ≤ 1 ∧ 0 ≤ v ∧ v ≤ 1 ∧ t = r.point u v := by
  have hside {a b c : K} (ha : 0 < a) : c ∈ Set.Icc b (b + a) ↔
      ∃ u : K, 0 ≤ u ∧ u ≤ 1 ∧ c = b + a * u := by
    constructor
    · rintro ⟨hlow, hhigh⟩
      refine ⟨(c - b) / a, div_nonneg (sub_nonneg.mpr hlow) ha.le, ?_, ?_⟩
      · rw [div_le_one ha]
        linarith
      · rw [mul_div_cancel₀ _ ha.ne', add_sub_cancel]
    · rintro ⟨u, hlow, hhigh, rfl⟩
      have hnonneg := mul_nonneg ha.le hlow
      have hle := mul_le_mul_of_nonneg_left hhigh ha.le
      constructor <;> linarith
  rw [points, Set.mem_prod, hside hw, hside hh]
  constructor
  · rintro ⟨⟨u, hu, hu', htx⟩, v, hv, hv', hty⟩
    exact ⟨u, v, hu, hu', hv, hv', Prod.ext htx hty⟩
  · rintro ⟨u, v, hu, hu', hv, hv', rfl⟩
    exact ⟨⟨u, hu, hu', rfl⟩, v, hv, hv', rfl⟩

theorem point_inj (hw : 0 < r.w) (hh : 0 < r.h) {u v u' v' : K}
    (heq : r.point u v = r.point u' v') : u = u' ∧ v = v' := by
  obtain ⟨hx, hy⟩ := Prod.ext_iff.mp heq
  exact ⟨mul_left_cancel₀ hw.ne' (add_left_cancel hx), mul_left_cancel₀ hh.ne' (add_left_cancel hy)⟩

/-- The triangle at the corner of the rectangle. -/
theorem mem_lower_iff : t ∈ triangle (r.point 0 0) (r.point 1 0) (r.point 0 1) ↔
    ∃ u v : K, 0 ≤ u ∧ 0 ≤ v ∧ u + v ≤ 1 ∧ t = r.point u v := by
  constructor
  · rintro ⟨a, b, c, ha, hb, hc, hsum, rfl⟩
    refine ⟨b, c, hb, hc, by linarith, ?_⟩
    obtain rfl : a = 1 - b - c := by linarith
    ext <;> simp [point] <;> ring
  · rintro ⟨u, v, hu, hv, hle, rfl⟩
    refine ⟨1 - u - v, u, v, by linarith, hu, hv, by ring, ?_⟩
    ext <;> simp [point] <;> ring

/-- The triangle at the opposite corner. -/
theorem mem_upper_iff : t ∈ triangle (r.point 1 0) (r.point 0 1) (r.point 1 1) ↔
    ∃ u v : K, u ≤ 1 ∧ v ≤ 1 ∧ 1 ≤ u + v ∧ t = r.point u v := by
  constructor
  · rintro ⟨a, b, c, ha, hb, hc, hsum, rfl⟩
    refine ⟨a + c, b + c, by linarith, by linarith, by linarith, ?_⟩
    obtain rfl : a = 1 - b - c := by linarith
    ext <;> simp [point] <;> ring
  · rintro ⟨u, v, hu, hv, hle, rfl⟩
    refine ⟨1 - v, 1 - u, u + v - 1, by linarith, by linarith, by linarith, by ring, ?_⟩
    ext <;> simp [point] <;> ring

theorem lower_union_upper (hw : 0 < r.w) (hh : 0 < r.h) :
    triangle (r.point 0 0) (r.point 1 0) (r.point 0 1) ∪
      triangle (r.point 1 0) (r.point 0 1) (r.point 1 1) = r.points := by
  ext t
  rw [Set.mem_union, mem_lower_iff, mem_upper_iff, mem_points_iff hw hh]
  constructor
  · rintro (⟨u, v, hu, hv, hle, rfl⟩ | ⟨u, v, hu, hv, hle, rfl⟩)
    · exact ⟨u, v, hu, by linarith, hv, by linarith, rfl⟩
    · exact ⟨u, v, by linarith, hu, by linarith, hv, rfl⟩
  · rintro ⟨u, v, hu, hu', hv, hv', rfl⟩
    rcases le_total (u + v) 1 with hle | hle
    · exact Or.inl ⟨u, v, hu, hv, hle, rfl⟩
    · exact Or.inr ⟨u, v, hu', hv', hle, rfl⟩

/-- The triangles share the diagonal. -/
theorem lower_inter_upper (hw : 0 < r.w) (hh : 0 < r.h) :
    triangle (r.point 0 0) (r.point 1 0) (r.point 0 1) ∩
      triangle (r.point 1 0) (r.point 0 1) (r.point 1 1) =
        segment K (r.point 1 0) (r.point 0 1) := by
  ext t
  rw [Set.mem_inter_iff, mem_lower_iff, mem_upper_iff]
  constructor
  · rintro ⟨⟨u, v, hu, hv, hle, rfl⟩, u', v', hu', hv', hle', heq⟩
    obtain ⟨rfl, rfl⟩ := point_inj hw hh heq
    obtain rfl : v = 1 - u := by linarith
    refine ⟨u, 1 - u, hu, hv, by ring, ?_⟩
    ext <;> simp [point] <;> ring
  · rintro ⟨a, b, ha, hb, hsum, rfl⟩
    obtain rfl : b = 1 - a := by linarith
    have heq : a • r.point 1 0 + (1 - a) • r.point 0 1 = r.point a (1 - a) := by
      ext <;> simp [point] <;> ring
    exact ⟨⟨a, 1 - a, ha, hb, by linarith, heq⟩, a, 1 - a, by linarith, by linarith, by linarith,
      heq⟩

end Rectangle

end Sp2Module
