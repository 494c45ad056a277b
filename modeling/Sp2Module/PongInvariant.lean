import Sp2Module.Pong

/-!
# What holds in every state of Pong

The places of the ball are `640 + 8 * k`. A step of the game moves it by one place, so it comes to
the one place that a paddle covers before it gets behind the paddle, and from behind the paddle it
does not come back before the goal.
-/

namespace Sp2Module.Pong.PongGame

open Draw (Vector2)

variable {g : PongGame} {k k' : Keys}

/-! ### The paddles -/

/-- Both paddles at the same height, inside the field. -/
structure PaddlesInField (g : PongGame) : Prop where
  same : g.player1.mY = g.player0.mY
  low : 100 ≤ g.player0.mY
  high : g.player0.mY ≤ 520

theorem paddlesInField_reset : PaddlesInField reset := by
  constructor <;> norm_num [reset, resetPlayer]

theorem paddlesInField_setPlayersY {y : ℚ} (hlow : 100 ≤ y) (hhigh : y ≤ 520) (g : PongGame) :
    PaddlesInField (g.setPlayersY y) :=
  ⟨rfl, hlow, hhigh⟩

theorem PaddlesInField.holdUp (h : PaddlesInField g) (k : Keys) : PaddlesInField (g.holdUp k) := by
  have hbottom : (gameY + gameH) - playerH = 520 := by norm_num [Draw.screenH]
  have hlow := h.low
  unfold PongGame.holdUp
  rw [hbottom, playerSpeed]
  dsimp only
  split_ifs with hkeys hmax
  · exact paddlesInField_setPlayersY (by norm_num) le_rfl g
  · exact paddlesInField_setPlayersY (by linarith) (by linarith) g
  · exact h

theorem PaddlesInField.holdDown (h : PaddlesInField g) (k : Keys) :
    PaddlesInField (g.holdDown k) := by
  have hhigh := h.high
  unfold PongGame.holdDown
  rw [gameY, playerSpeed]
  dsimp only
  split_ifs with hkeys hmin
  · exact paddlesInField_setPlayersY le_rfl (by norm_num) g
  · exact paddlesInField_setPlayersY (by linarith) (by linarith) g
  · exact h

/-- The paddles are where they were. -/
def SamePaddles (g g' : PongGame) : Prop :=
  g'.player0.mY = g.player0.mY ∧ g'.player1.mY = g.player1.mY

theorem PaddlesInField.of_same {g' : PongGame} (h : PaddlesInField g) (hsame : SamePaddles g g') :
    PaddlesInField g' := by
  obtain ⟨h0, h1⟩ := hsame
  exact ⟨by rw [h0, h1, h.same], h0 ▸ h.low, h0 ▸ h.high⟩

theorem samePaddles_bounceBottom (g : PongGame) : SamePaddles g g.bounceBottom := by
  unfold bounceBottom
  split_ifs <;> exact ⟨rfl, rfl⟩

theorem samePaddles_bounceTop (g : PongGame) : SamePaddles g g.bounceTop := by
  unfold bounceTop
  split_ifs <;> exact ⟨rfl, rfl⟩

theorem samePaddles_countRight (g : PongGame) : SamePaddles g g.countRight := by
  unfold countRight
  split_ifs <;> exact ⟨rfl, rfl⟩

theorem samePaddles_countLeft (g : PongGame) : SamePaddles g g.countLeft := by
  unfold countLeft
  split_ifs <;> exact ⟨rfl, rfl⟩

theorem samePaddles_hitPlayer0 (g : PongGame) : SamePaddles g g.hitPlayer0 := by
  unfold hitPlayer0
  split_ifs <;> exact ⟨rfl, rfl⟩

theorem samePaddles_hitPlayer1 (g : PongGame) : SamePaddles g g.hitPlayer1 := by
  unfold hitPlayer1
  split_ifs <;> exact ⟨rfl, rfl⟩

theorem PaddlesInField.restart (h : PaddlesInField g) (k : Keys) :
    PaddlesInField (g.restart k) := by
  unfold PongGame.restart
  split_ifs
  · exact paddlesInField_reset
  · exact h

theorem PaddlesInField.logic (h : PaddlesInField g) (k : Keys) : PaddlesInField (g.logic k) := by
  have hmoved : PaddlesInField (((g.restart k).holdUp k).holdDown k).moveBall :=
    (((h.restart k).holdUp k).holdDown k).of_same ⟨rfl, rfl⟩
  have hgoals : PaddlesInField (g.beforeHits k) :=
    (((hmoved.of_same (samePaddles_bounceBottom _)).of_same (samePaddles_bounceTop _)).of_same
      (samePaddles_countRight _)).of_same (samePaddles_countLeft _)
  exact (hgoals.of_same (samePaddles_hitPlayer0 _)).of_same (samePaddles_hitPlayer1 _)

/-! ### The height of the ball -/

/-- The ball is no steeper than a paddle makes it. -/
def Flat (g : PongGame) : Prop := |g.mBall.mDirection.y| ≤ 5 / 3

/-- The ball is between the walls. -/
def BetweenWalls (g : PongGame) : Prop := 100 ≤ g.mBall.mY ∧ g.mBall.mY ≤ 614

theorem flat_of_eq_zero (h : g.mBall.mDirection.y = 0) : Flat g := by
  rw [Flat, h, abs_zero]
  norm_num

theorem Flat.bounceAt (h : Flat g) (y : ℚ) : Flat (g.bounceAt y) := by
  change |-g.mBall.mDirection.y| ≤ 5 / 3
  rw [abs_neg]
  exact h

theorem Flat.bounceBottom (h : Flat g) : Flat g.bounceBottom := by
  unfold PongGame.bounceBottom
  split_ifs
  · exact h.bounceAt _
  · exact h

theorem Flat.bounceTop (h : Flat g) : Flat g.bounceTop := by
  unfold PongGame.bounceTop
  split_ifs
  · exact h.bounceAt _
  · exact h

theorem mY_bounceBottom_le (g : PongGame) : g.bounceBottom.mBall.mY ≤ 614 := by
  have hbottom : (gameY + gameH) - ballSize = 614 := by norm_num [Draw.screenH]
  unfold bounceBottom
  rw [hbottom]
  split_ifs with h
  · exact le_rfl
  · exact (not_le.mp h).le

theorem betweenWalls_bounceTop (h : g.mBall.mY ≤ 614) : BetweenWalls g.bounceTop := by
  unfold bounceTop
  rw [gameY]
  split_ifs with htop
  · exact ⟨le_rfl, by change (100 : ℚ) ≤ 614; norm_num⟩
  · exact ⟨(not_le.mp htop).le, h⟩

/-- At a goal the ball is level, halfway between the walls. -/
theorem BetweenWalls.countRight (h : BetweenWalls g) : BetweenWalls g.countRight := by
  unfold PongGame.countRight
  split_ifs
  · constructor <;> norm_num [resetBall, Draw.screenH]
  · exact h

theorem BetweenWalls.countLeft (h : BetweenWalls g) : BetweenWalls g.countLeft := by
  unfold PongGame.countLeft
  split_ifs
  · constructor <;> norm_num [resetBall, Draw.screenH]
  · exact h

theorem Flat.countRight (h : Flat g) : Flat g.countRight := by
  unfold PongGame.countRight
  split_ifs
  · exact flat_of_eq_zero rfl
  · exact h

theorem Flat.countLeft (h : Flat g) : Flat g.countLeft := by
  unfold PongGame.countLeft
  split_ifs
  · exact flat_of_eq_zero rfl
  · exact h

/-- The middle of a paddle is at most half of it away. -/
theorem flat_turnBack {p : PongPlayer} {slope : ℚ} (h : g.AtPaddle p) (hslope : 30 ≤ slope) :
    Flat (g.turnBack p slope) := by
  obtain ⟨hlow, hhigh⟩ := h
  rw [playerH] at hhigh
  have hmid : |playerH / 2 - (g.mBall.mY - p.mY)| ≤ 50 := by
    rw [abs_le, playerH]
    constructor <;> linarith
  change |-((playerH / 2 - (g.mBall.mY - p.mY)) / slope)| ≤ 5 / 3
  rw [abs_neg, abs_div, abs_of_pos (by linarith : 0 < slope), div_le_iff₀ (by linarith)]
  linarith

theorem Flat.hitPlayer0 (h : Flat g) : Flat g.hitPlayer0 := by
  unfold PongGame.hitPlayer0
  split_ifs with hhit
  · exact flat_turnBack hhit.2 (by norm_num)
  · exact h

theorem Flat.hitPlayer1 (h : Flat g) : Flat g.hitPlayer1 := by
  unfold PongGame.hitPlayer1
  split_ifs with hhit
  · exact flat_turnBack hhit.2 le_rfl
  · exact h

theorem mBall_hold (k : Keys) (g : PongGame) : ((g.holdUp k).holdDown k).mBall = g.mBall := by
  unfold holdDown holdUp
  split_ifs <;> rfl

theorem Flat.logic (h : Flat g) (k : Keys) : Flat (g.logic k) := by
  have hrestart : Flat (g.restart k) := by
    unfold PongGame.restart
    split_ifs
    · exact flat_of_eq_zero rfl
    · exact h
  have hmoved : Flat (((g.restart k).holdUp k).holdDown k).moveBall := by
    change |(((g.restart k).holdUp k).holdDown k).mBall.mDirection.y| ≤ 5 / 3
    rw [mBall_hold]
    exact hrestart
  exact hmoved.bounceBottom.bounceTop.countRight.countLeft.hitPlayer0.hitPlayer1

theorem betweenWalls_logic (k : Keys) (g : PongGame) : BetweenWalls (g.logic k) := by
  have hgoals : BetweenWalls (g.beforeHits k) :=
    (betweenWalls_bounceTop (mY_bounceBottom_le _)).countRight.countLeft
  have hmY : (g.logic k).mBall.mY = (g.beforeHits k).mBall.mY := by
    unfold PongGame.logic hitPlayer1 hitPlayer0
    split_ifs <;> rfl
  unfold BetweenWalls
  rwa [hmY]

/-! ### The place of the ball -/

/-- The ball at a place from `lo` to `hi`; left of `a` it moves left, right of `b` right. -/
structure OnTrack (lo hi : ℤ) (a b : ℚ) (g : PongGame) : Prop where
  place : ∃ n : ℤ, lo ≤ n ∧ n ≤ hi ∧ g.mBall.mX = 640 + 8 * n
  direction : g.mBall.mDirection.x = 1 ∨ g.mBall.mDirection.x = -1
  left : g.mBall.mX < a → g.mBall.mDirection.x = -1
  right : b < g.mBall.mX → g.mBall.mDirection.x = 1

variable {lo hi : ℤ} {a b : ℚ}

/-- The horizontal motion is as it was. -/
def SameTrack (g g' : PongGame) : Prop :=
  g'.mBall.mX = g.mBall.mX ∧ g'.mBall.mDirection.x = g.mBall.mDirection.x

theorem OnTrack.of_same {g' : PongGame} (h : OnTrack lo hi a b g) (hsame : SameTrack g g') :
    OnTrack lo hi a b g' := by
  obtain ⟨hX, hd⟩ := hsame
  exact ⟨by rw [hX]; exact h.place, by rw [hd]; exact h.direction, by rw [hX, hd]; exact h.left,
    by rw [hX, hd]; exact h.right⟩

theorem sameTrack_bounceBottom (g : PongGame) : SameTrack g g.bounceBottom := by
  unfold bounceBottom
  split_ifs <;> exact ⟨rfl, rfl⟩

theorem sameTrack_bounceTop (g : PongGame) : SameTrack g g.bounceTop := by
  unfold bounceTop
  split_ifs <;> exact ⟨rfl, rfl⟩

theorem mX_resetBall (startVec : Vector2 ℚ) : (resetBall startVec).mX = 640 := by
  norm_num [resetBall, Draw.screenW]

/-- A ball at the centre is on the track, whichever way it moves. -/
theorem onTrack_resetBall {startVec : Vector2 ℚ} (hball : g.mBall = resetBall startVec)
    (hd : startVec.x = 1 ∨ startVec.x = -1) (hlo : lo ≤ 0) (hhi : 0 ≤ hi) (ha : a ≤ 640)
    (hb : 640 ≤ b) : OnTrack lo hi a b g := by
  have hX : g.mBall.mX = 640 := by rw [hball, mX_resetBall]
  refine ⟨⟨0, hlo, hhi, by rw [hX]; norm_num⟩, by rw [hball]; exact hd, ?_, ?_⟩
  · intro h
    linarith
  · intro h
    linarith

theorem OnTrack.moveBall (h : OnTrack (-54) 54 256 1032 g) :
    OnTrack (-55) 55 264 1024 g.moveBall := by
  have hmX : g.moveBall.mBall.mX = g.mBall.mX + g.mBall.mDirection.x * 8 := rfl
  have hd : g.moveBall.mBall.mDirection.x = g.mBall.mDirection.x := rfl
  obtain ⟨n, hlo, hhi, hX⟩ := h.place
  constructor
  case place =>
    rcases h.direction with hright | hleft
    · refine ⟨n + 1, by omega, by omega, ?_⟩
      rw [hmX, hX, hright]
      push_cast
      ring
    · refine ⟨n - 1, by omega, by omega, ?_⟩
      rw [hmX, hX, hleft]
      push_cast
      ring
  case direction =>
    rw [hd]
    exact h.direction
  case left =>
    intro hlt
    rw [hd]
    rcases h.direction with hright | hleft
    · rw [hmX, hright] at hlt
      exact h.left (by linarith)
    · exact hleft
  case right =>
    intro hlt
    rw [hd]
    rcases h.direction with hright | hleft
    · exact hright
    · rw [hmX, hleft] at hlt
      exact h.right (by linarith)

/-- A comparison with a place of the track is one of whole numbers. -/
theorem place_lt_iff (n c : ℤ) : (640 + 8 * n : ℚ) < c ↔ 640 + 8 * n < c := by
  exact_mod_cast Iff.rfl

theorem lt_place_iff (n c : ℤ) : (c : ℚ) < 640 + 8 * n ↔ c < 640 + 8 * n := by
  exact_mod_cast Iff.rfl

theorem rightGoal_iff {n : ℤ} (hX : g.mBall.mX = 640 + 8 * n) : g.RightGoal ↔ 55 ≤ n := by
  have hright : (gameX + gameW) - ballSize = (1074 : ℤ) := by norm_num [Draw.screenW]
  rw [RightGoal, hright, hX, ge_iff_le, ← not_lt, place_lt_iff]
  omega

theorem leftGoal_iff {n : ℤ} (hX : g.mBall.mX = 640 + 8 * n) : g.LeftGoal ↔ n ≤ -55 := by
  have hleft : gameX = (200 : ℤ) := by norm_num
  rw [LeftGoal, hleft, hX, ← not_lt, lt_place_iff]
  omega

/-- Each paddle covers one place. -/
theorem inColumn0_iff {n : ℤ} (hX : g.mBall.mX = 640 + 8 * n) : g.InColumn0 ↔ n = -48 := by
  have hlow : gameX + playerOff = (250 : ℤ) := by norm_num
  have hhigh : gameX + playerOff + playerW = (258 : ℤ) := by norm_num
  rw [InColumn0, hhigh, hlow, hX, gt_iff_lt, lt_place_iff, ← not_lt, lt_place_iff]
  omega

theorem inColumn1_iff {n : ℤ} (hX : g.mBall.mX = 640 + 8 * n) : g.InColumn1 ↔ n = 49 := by
  have hlow : gameX + gameW - playerOff = (1030 : ℤ) := by norm_num [Draw.screenW]
  have hhigh : gameX + gameW - playerOff + playerW = (1038 : ℤ) := by norm_num [Draw.screenW]
  rw [InColumn1, hhigh, hlow, hX, ge_iff_le, place_lt_iff, ← not_lt, place_lt_iff]
  omega

theorem OnTrack.countRight (h : OnTrack (-55) 55 264 1024 g) :
    OnTrack (-55) 54 264 1024 g.countRight := by
  unfold PongGame.countRight
  split_ifs with hgoal
  · exact onTrack_resetBall rfl (.inr rfl) (by norm_num) (by norm_num) (by norm_num) (by norm_num)
  · obtain ⟨n, hlo, hhi, hX⟩ := h.place
    rw [rightGoal_iff hX] at hgoal
    exact ⟨⟨n, hlo, by omega, hX⟩, h.direction, h.left, h.right⟩

theorem OnTrack.countLeft (h : OnTrack (-55) 54 264 1024 g) :
    OnTrack (-54) 54 264 1024 g.countLeft := by
  unfold PongGame.countLeft
  split_ifs with hgoal
  · exact onTrack_resetBall rfl (.inl rfl) (by norm_num) (by norm_num) (by norm_num) (by norm_num)
  · obtain ⟨n, hlo, hhi, hX⟩ := h.place
    rw [leftGoal_iff hX] at hgoal
    exact ⟨⟨n, by omega, hhi, hX⟩, h.direction, h.left, h.right⟩

/-- The ball comes to the left paddle from the right, and leaves it to the right. -/
theorem OnTrack.direction_of_hits0 (h : OnTrack (-54) 54 264 1024 g) (hhit : g.Hits0) :
    g.mBall.mDirection.x = -1 ∧ g.hitPlayer0.mBall.mDirection.x = 1 := by
  obtain ⟨n, -, -, hX⟩ := h.place
  have hn := (inColumn0_iff hX).mp hhit.1
  have hleft : g.mBall.mDirection.x = -1 := by
    apply h.left
    rw [hX, hn]
    norm_num
  refine ⟨hleft, ?_⟩
  rw [hitPlayer0, if_pos hhit]
  change -g.mBall.mDirection.x = 1
  rw [hleft, neg_neg]

theorem OnTrack.hitPlayer0 (h : OnTrack (-54) 54 264 1024 g) :
    OnTrack (-54) 54 256 1024 g.hitPlayer0 := by
  by_cases hhit : g.Hits0
  · obtain ⟨n, hlo, hhi, hX⟩ := h.place
    have hn := (inColumn0_iff hX).mp hhit.1
    have hmX : g.hitPlayer0.mBall.mX = g.mBall.mX := by
      rw [PongGame.hitPlayer0, if_pos hhit]
      rfl
    refine ⟨⟨n, hlo, hhi, by rw [hmX, hX]⟩, .inl (h.direction_of_hits0 hhit).2, ?_,
      fun _ => (h.direction_of_hits0 hhit).2⟩
    intro hlt
    rw [hmX, hX, hn] at hlt
    norm_num at hlt
  · rw [PongGame.hitPlayer0, if_neg hhit]
    exact ⟨h.place, h.direction, fun hlt => h.left (by linarith), h.right⟩

theorem OnTrack.direction_of_hits1 (h : OnTrack (-54) 54 256 1024 g) (hhit : g.Hits1) :
    g.mBall.mDirection.x = 1 ∧ g.hitPlayer1.mBall.mDirection.x = -1 := by
  obtain ⟨n, -, -, hX⟩ := h.place
  have hn := (inColumn1_iff hX).mp hhit.1
  have hright : g.mBall.mDirection.x = 1 := by
    apply h.right
    rw [hX, hn]
    norm_num
  refine ⟨hright, ?_⟩
  rw [hitPlayer1, if_pos hhit]
  change -g.mBall.mDirection.x = -1
  rw [hright]

theorem OnTrack.hitPlayer1 (h : OnTrack (-54) 54 256 1024 g) :
    OnTrack (-54) 54 256 1032 g.hitPlayer1 := by
  by_cases hhit : g.Hits1
  · obtain ⟨n, hlo, hhi, hX⟩ := h.place
    have hn := (inColumn1_iff hX).mp hhit.1
    have hmX : g.hitPlayer1.mBall.mX = g.mBall.mX := by
      rw [PongGame.hitPlayer1, if_pos hhit]
      rfl
    refine ⟨⟨n, hlo, hhi, by rw [hmX, hX]⟩, .inr (h.direction_of_hits1 hhit).2,
      fun _ => (h.direction_of_hits1 hhit).2, ?_⟩
    intro hlt
    rw [hmX, hX, hn] at hlt
    norm_num at hlt
  · rw [PongGame.hitPlayer1, if_neg hhit]
    exact ⟨h.place, h.direction, h.left, fun hlt => h.right (by linarith)⟩

theorem OnTrack.restart (h : OnTrack (-54) 54 256 1032 g) (k : Keys) :
    OnTrack (-54) 54 256 1032 (g.restart k) := by
  unfold PongGame.restart
  split_ifs
  · exact onTrack_resetBall rfl (.inl rfl) (by norm_num) (by norm_num) (by norm_num) (by norm_num)
  · exact h

theorem OnTrack.beforeGoals (h : OnTrack (-54) 54 256 1032 g) (k : Keys) :
    OnTrack (-55) 55 264 1024 (g.beforeGoals k) := by
  have hheld : OnTrack (-54) 54 256 1032 (((g.restart k).holdUp k).holdDown k) := by
    apply (h.restart k).of_same
    rw [SameTrack, mBall_hold]
    exact ⟨rfl, rfl⟩
  exact (hheld.moveBall.of_same (sameTrack_bounceBottom _)).of_same (sameTrack_bounceTop _)

theorem OnTrack.beforeHits (h : OnTrack (-54) 54 256 1032 g) (k : Keys) :
    OnTrack (-54) 54 264 1024 (g.beforeHits k) :=
  (h.beforeGoals k).countRight.countLeft

theorem OnTrack.logic (h : OnTrack (-54) 54 256 1032 g) (k : Keys) :
    OnTrack (-54) 54 256 1032 (g.logic k) :=
  (h.beforeHits k).hitPlayer0.hitPlayer1

/-! ### From one place to the next -/

theorem mX_hits (g : PongGame) : g.hitPlayer0.hitPlayer1.mBall.mX = g.mBall.mX := by
  unfold hitPlayer1 hitPlayer0
  split_ifs <;> rfl

theorem mX_logic (k : Keys) (g : PongGame) :
    (g.logic k).mBall.mX = (g.beforeHits k).mBall.mX :=
  mX_hits _

/-- Where the ball is before the goals are counted. -/
theorem mX_beforeGoals (k : Keys) (g : PongGame) :
    (g.beforeGoals k).mBall.mX =
      (g.restart k).mBall.mX + (g.restart k).mBall.mDirection.x * 8 := by
  rw [beforeGoals, (sameTrack_bounceTop _).1, (sameTrack_bounceBottom _).1]
  change (((g.restart k).holdUp k).holdDown k).mBall.mX +
    (((g.restart k).holdUp k).holdDown k).mBall.mDirection.x * 8 = _
  rw [mBall_hold]

/-- A goal puts the ball back to the centre. -/
theorem mBall_of_goal (h : g.RightGoal ∨ g.countRight.LeftGoal) :
    g.countRight.countLeft.mBall = resetBall ⟨1, 0⟩ ∨
      g.countRight.countLeft.mBall = resetBall ⟨-1, 0⟩ := by
  by_cases hleft : g.countRight.LeftGoal
  · left
    rw [countLeft, if_pos hleft]
  · right
    rw [countLeft, if_neg hleft, countRight, if_pos (h.resolve_right hleft)]

theorem countGoals_of_no_goal (h : ¬ g.RightGoal) (h' : ¬ g.countRight.LeftGoal) :
    g.countRight.countLeft = g := by
  have hsame : g.countRight = g := by rw [countRight, if_neg h]
  rw [countLeft, if_neg h', hsame]

/-- The goals of a step. -/
def Goal (k : Keys) (g : PongGame) : Prop :=
  (g.beforeGoals k).RightGoal ∨ (g.beforeGoals k).countRight.LeftGoal

theorem mX_logic_of_goal (h : Goal k g) : (g.logic k).mBall.mX = 640 := by
  rw [mX_logic, beforeHits]
  rcases mBall_of_goal h with hball | hball
  all_goals rw [hball, mX_resetBall]

theorem mX_logic_of_no_goal (h : ¬ Goal k g) :
    (g.logic k).mBall.mX = (g.restart k).mBall.mX + (g.restart k).mBall.mDirection.x * 8 := by
  obtain ⟨hright, hleft⟩ := not_or.mp h
  rw [mX_logic, beforeHits, countGoals_of_no_goal hright hleft, mX_beforeGoals]

/-- The next place is beside the one before, or at the centre after a goal, or beside the centre
after a restart. -/
theorem OnTrack.next_place (h : OnTrack (-54) 54 256 1032 g) (k : Keys) :
    ∃ n n' : ℤ, g.mBall.mX = 640 + 8 * n ∧ (g.logic k).mBall.mX = 640 + 8 * n' ∧
      (n' = 0 ∧ Goal k g ∨ n' = 1 ∧ k.b = true ∨
        n' = n + 1 ∧ g.mBall.mDirection.x = 1 ∨ n' = n - 1 ∧ g.mBall.mDirection.x = -1) := by
  obtain ⟨n, -, -, hX⟩ := h.place
  refine ⟨n, ?_⟩
  by_cases hgoal : Goal k g
  · exact ⟨0, hX, by rw [mX_logic_of_goal hgoal]; norm_num, .inl ⟨rfl, hgoal⟩⟩
  rw [mX_logic_of_no_goal hgoal, PongGame.restart]
  by_cases hb : k.b = true
  · refine ⟨1, hX, ?_, .inr (.inl ⟨rfl, hb⟩)⟩
    rw [if_pos hb, reset, mX_resetBall]
    norm_num [resetBall]
  · rw [if_neg hb]
    rcases h.direction with hright | hleft
    · refine ⟨n + 1, hX, ?_, .inr (.inr (.inl ⟨rfl, hright⟩))⟩
      rw [hX, hright]
      push_cast
      ring
    · refine ⟨n - 1, hX, ?_, .inr (.inr (.inr ⟨rfl, hleft⟩))⟩
      rw [hX, hleft]
      push_cast
      ring

/-! ### The score -/

def total (g : PongGame) : ℤ := g.player0.mScore + g.player1.mScore

theorem total_hold (k : Keys) (g : PongGame) : ((g.holdUp k).holdDown k).total = g.total := by
  unfold holdDown holdUp
  split_ifs <;> rfl

theorem total_bounce (g : PongGame) : g.bounceBottom.bounceTop.total = g.total := by
  unfold bounceTop bounceBottom
  split_ifs <;> rfl

theorem total_hits (g : PongGame) : g.hitPlayer0.hitPlayer1.total = g.total := by
  unfold hitPlayer1 hitPlayer0
  split_ifs <;> rfl

theorem total_beforeGoals (k : Keys) (g : PongGame) :
    (g.beforeGoals k).total = (g.restart k).total := by
  rw [beforeGoals, total_bounce]
  exact total_hold k (g.restart k)

/-- The ball is behind one paddle at most. -/
theorem total_countGoals (g : PongGame) :
    (g.RightGoal ∨ g.countRight.LeftGoal → g.countRight.countLeft.total = g.total + 1) ∧
      (¬ (g.RightGoal ∨ g.countRight.LeftGoal) → g.countRight.countLeft.total = g.total) := by
  constructor
  · intro h
    by_cases hright : g.RightGoal
    · have hleft : ¬ g.countRight.LeftGoal := by
        rw [countRight, if_pos hright, LeftGoal, mX_resetBall, gameX]
        norm_num
      rw [countLeft, if_neg hleft, countRight, if_pos hright, total, total]
      ring
    · have hleft := h.resolve_left hright
      rw [countLeft, if_pos hleft, countRight, if_neg hright, total, total]
      ring
  · intro h
    obtain ⟨hright, hleft⟩ := not_or.mp h
    rw [countGoals_of_no_goal hright hleft]

theorem total_logic_of_goal (h : Goal k g) : (g.logic k).total = (g.restart k).total + 1 := by
  rw [logic, total_hits, beforeHits, (total_countGoals _).1 h, total_beforeGoals]

theorem total_logic_of_no_goal (h : ¬ Goal k g) : (g.logic k).total = (g.restart k).total := by
  rw [logic, total_hits, beforeHits, (total_countGoals _).2 h, total_beforeGoals]

/-- A restart is no goal. -/
theorem not_goal_of_restart (hb : k.b = true) : ¬ Goal k g := by
  have hX : (g.beforeGoals k).mBall.mX = 640 + 8 * ((1 : ℤ) : ℚ) := by
    rw [mX_beforeGoals, restart, if_pos hb, reset, mX_resetBall]
    norm_num [resetBall]
  have hright : ¬ (g.beforeGoals k).RightGoal := by
    rw [rightGoal_iff hX]
    decide
  rintro (h | h)
  · exact hright h
  · rw [countRight, if_neg hright, leftGoal_iff hX] at h
    exact absurd h (by decide)

theorem total_nonneg_logic (h : 0 ≤ g.total) (k : Keys) : 0 ≤ (g.logic k).total := by
  have hrestart : 0 ≤ (g.restart k).total := by
    unfold restart
    split_ifs
    · exact le_rfl
    · exact h
  by_cases hgoal : Goal k g
  · rw [total_logic_of_goal hgoal]
    omega
  · rwa [total_logic_of_no_goal hgoal]

/-! ### Runs -/

/-- The invariant of the game. -/
structure Sound (g : PongGame) : Prop where
  paddles : PaddlesInField g
  flat : Flat g
  track : OnTrack (-54) 54 256 1032 g
  total : 0 ≤ g.total

theorem sound_reset : Sound reset where
  paddles := paddlesInField_reset
  flat := flat_of_eq_zero rfl
  track := onTrack_resetBall rfl (.inl rfl) (by norm_num) (by norm_num) (by norm_num) (by norm_num)
  total := le_rfl

theorem Sound.logic (h : Sound g) (k : Keys) : Sound (g.logic k) :=
  ⟨h.paddles.logic k, h.flat.logic k, h.track.logic k, total_nonneg_logic h.total k⟩

theorem sound_run (keys : List Keys) : Sound (run keys) := by
  have hfold : ∀ g : PongGame, Sound g → Sound (keys.foldl (fun g k => g.logic k) g) := by
    induction keys with
    | nil => exact fun g h => h
    | cons k keys ih => exact fun g h => ih (g.logic k) (h.logic k)
  exact hfold reset sound_reset

/-- What is promised of the step from `g` with the keys `k`. -/
structure StepLaws (k : Keys) (g : PongGame) : Prop where
  paddles : (g.logic k).player1.mY = (g.logic k).player0.mY ∧ 100 ≤ (g.logic k).player0.mY ∧
    (g.logic k).player0.mY ≤ 520
  height : 100 ≤ (g.logic k).mBall.mY ∧ (g.logic k).mBall.mY ≤ 614
  place : 200 < (g.logic k).mBall.mX ∧ (g.logic k).mBall.mX < 1074
  direction : (g.logic k).mBall.mDirection.x = 1 ∨ (g.logic k).mBall.mDirection.x = -1
  flat : |(g.logic k).mBall.mDirection.y| ≤ 5 / 3
  -- a collision sends the ball away, and the next step has none with the same paddle
  away0 : (g.beforeHits k).Hits0 → (g.logic k).mBall.mDirection.x = 1 ∧
    ∀ k', ¬ ((g.logic k).beforeHits k').Hits0
  away1 : (g.beforeHits k).hitPlayer0.Hits1 → (g.logic k).mBall.mDirection.x = -1 ∧
    ∀ k', ¬ ((g.logic k).beforeHits k').hitPlayer0.Hits1
  -- the ball is tested against a paddle in the steps that end in its column
  tested0 : (g.beforeHits k).InColumn0 ↔ (g.logic k).InColumn0
  tested1 : (g.beforeHits k).hitPlayer0.InColumn1 ↔ (g.logic k).InColumn1
  -- no step jumps over a column, and no two in succession end in it
  noJump0 : 258 < g.mBall.mX → 250 < (g.logic k).mBall.mX
  noJump1 : g.mBall.mX < 1030 → (g.logic k).mBall.mX < 1038
  once0 : g.InColumn0 → ¬ (g.logic k).InColumn0
  once1 : g.InColumn1 → ¬ (g.logic k).InColumn1
  -- from behind a column the ball only gets back by being put to the centre
  behind0 : g.mBall.mX ≤ 250 → (g.logic k).mBall.mX ≤ 250 ∨ Goal k g ∨ k.b = true
  behind1 : 1038 ≤ g.mBall.mX → 1038 ≤ (g.logic k).mBall.mX ∨ Goal k g ∨ k.b = true
  total_le : (g.logic k).total ≤ g.total + 1
  total_lt_iff : g.total < (g.logic k).total ↔ Goal k g
  centre : Goal k g → (g.logic k).mBall = resetBall ⟨1, 0⟩ ∨ (g.logic k).mBall = resetBall ⟨-1, 0⟩

theorem inColumn0_beforeHits (k : Keys) (g : PongGame) :
    (g.beforeHits k).InColumn0 ↔ (g.logic k).InColumn0 := by
  unfold InColumn0
  rw [mX_logic]

theorem inColumn1_beforeHits (k : Keys) (g : PongGame) :
    (g.beforeHits k).hitPlayer0.InColumn1 ↔ (g.logic k).InColumn1 := by
  have hmX : (g.beforeHits k).hitPlayer0.mBall.mX = (g.beforeHits k).mBall.mX := by
    unfold hitPlayer0
    split_ifs <;> rfl
  unfold InColumn1
  rw [mX_logic, hmX]

section Track

variable (h : OnTrack (-54) 54 256 1032 g) (k : Keys)
include h

theorem OnTrack.noJump0 (hX : 258 < g.mBall.mX) : 250 < (g.logic k).mBall.mX := by
  obtain ⟨n, n', hn, hn', hstep⟩ := h.next_place k
  rw [hn] at hX
  have hlt := (lt_place_iff n 258).mp (by exact_mod_cast hX)
  rw [hn']
  exact_mod_cast (lt_place_iff n' 250).mpr (by omega)

theorem OnTrack.noJump1 (hX : g.mBall.mX < 1030) : (g.logic k).mBall.mX < 1038 := by
  obtain ⟨n, n', hn, hn', hstep⟩ := h.next_place k
  rw [hn] at hX
  have hlt := (place_lt_iff n 1030).mp (by exact_mod_cast hX)
  rw [hn']
  exact_mod_cast (place_lt_iff n' 1038).mpr (by omega)

theorem OnTrack.once0 (hcol : g.InColumn0) : ¬ (g.logic k).InColumn0 := by
  obtain ⟨n, n', hn, hn', hstep⟩ := h.next_place k
  rw [inColumn0_iff hn] at hcol
  rw [inColumn0_iff hn']
  omega

theorem OnTrack.once1 (hcol : g.InColumn1) : ¬ (g.logic k).InColumn1 := by
  obtain ⟨n, n', hn, hn', hstep⟩ := h.next_place k
  rw [inColumn1_iff hn] at hcol
  rw [inColumn1_iff hn']
  omega

theorem OnTrack.behind0 (hX : g.mBall.mX ≤ 250) :
    (g.logic k).mBall.mX ≤ 250 ∨ Goal k g ∨ k.b = true := by
  obtain ⟨n, n', hn, hn', hstep⟩ := h.next_place k
  have hleft := h.left (by linarith)
  rcases hstep with ⟨-, hgoal⟩ | ⟨-, hb⟩ | ⟨-, hright⟩ | ⟨rfl, -⟩
  · exact .inr (.inl hgoal)
  · exact .inr (.inr hb)
  · rw [hleft] at hright
    norm_num at hright
  · left
    rw [hn']
    push_cast
    linarith

theorem OnTrack.behind1 (hX : 1038 ≤ g.mBall.mX) :
    1038 ≤ (g.logic k).mBall.mX ∨ Goal k g ∨ k.b = true := by
  obtain ⟨n, n', hn, hn', hstep⟩ := h.next_place k
  have hright := h.right (by linarith)
  rcases hstep with ⟨-, hgoal⟩ | ⟨-, hb⟩ | ⟨rfl, -⟩ | ⟨-, hleft⟩
  · exact .inr (.inl hgoal)
  · exact .inr (.inr hb)
  · left
    rw [hn']
    push_cast
    linarith
  · rw [hright] at hleft
    norm_num at hleft

/-- The right paddle does not change what the left one has done. -/
theorem OnTrack.direction_of_hits0_logic (hhit : (g.beforeHits k).Hits0) :
    (g.logic k).mBall.mDirection.x = 1 := by
  have hbefore := h.beforeHits k
  obtain ⟨n, -, -, hn⟩ := hbefore.place
  have hplace := (inColumn0_iff hn).mp hhit.1
  have hmiss : ¬ (g.beforeHits k).hitPlayer0.Hits1 := by
    intro hhit1
    have hcol := (inColumn1_beforeHits k g).mp hhit1.1
    rw [inColumn1_iff ((mX_logic k g).trans hn)] at hcol
    omega
  rw [PongGame.logic, PongGame.hitPlayer1, if_neg hmiss]
  exact (hbefore.direction_of_hits0 hhit).2

theorem OnTrack.direction_of_hits1_logic (hhit : (g.beforeHits k).hitPlayer0.Hits1) :
    (g.logic k).mBall.mDirection.x = -1 :=
  ((h.beforeHits k).hitPlayer0.direction_of_hits1 hhit).2

end Track

/-- At the centre there is no paddle. -/
theorem mBall_logic_of_goal (hgoal : Goal k g) :
    (g.logic k).mBall = resetBall ⟨1, 0⟩ ∨ (g.logic k).mBall = resetBall ⟨-1, 0⟩ := by
  have hX : (g.logic k).mBall.mX = 640 + 8 * ((0 : ℤ) : ℚ) := by
    rw [mX_logic_of_goal hgoal]
    norm_num
  have hmiss0 : ¬ (g.beforeHits k).Hits0 := by
    intro hhit
    have hcol := (inColumn0_beforeHits k g).mp hhit.1
    rw [inColumn0_iff hX] at hcol
    omega
  have hmiss1 : ¬ (g.beforeHits k).hitPlayer0.Hits1 := by
    intro hhit
    have hcol := (inColumn1_beforeHits k g).mp hhit.1
    rw [inColumn1_iff hX] at hcol
    omega
  rw [PongGame.logic, PongGame.hitPlayer1, if_neg hmiss1, PongGame.hitPlayer0, if_neg hmiss0]
  exact mBall_of_goal hgoal

theorem Sound.total_lt_iff (h : Sound g) (k : Keys) : g.total < (g.logic k).total ↔ Goal k g := by
  have hnonneg := h.total
  by_cases hgoal : Goal k g
  · have hb : ¬ k.b = true := fun hb => not_goal_of_restart hb hgoal
    have hsame : g.restart k = g := if_neg hb
    rw [total_logic_of_goal hgoal, hsame]
    exact iff_of_true (by omega) hgoal
  · rw [total_logic_of_no_goal hgoal]
    refine iff_of_false ?_ hgoal
    unfold restart
    split_ifs
    · exact not_lt.mpr hnonneg
    · exact lt_irrefl _

theorem Sound.total_le (h : Sound g) (k : Keys) : (g.logic k).total ≤ g.total + 1 := by
  have hnonneg := h.total
  have hrestart : (g.restart k).total ≤ g.total := by
    unfold restart
    split_ifs
    · exact hnonneg
    · exact le_rfl
  by_cases hgoal : Goal k g
  · rw [total_logic_of_goal hgoal]
    omega
  · rw [total_logic_of_no_goal hgoal]
    omega

theorem Sound.stepLaws (h : Sound g) (k : Keys) : StepLaws k g := by
  have hnext := h.logic k
  have hplace : 200 < (g.logic k).mBall.mX ∧ (g.logic k).mBall.mX < 1074 := by
    obtain ⟨n, hlo, hhi, hn⟩ := hnext.track.place
    rw [hn]
    exact_mod_cast And.intro ((lt_place_iff n 200).mpr (by omega))
      ((place_lt_iff n 1074).mpr (by omega))
  constructor
  case paddles => exact ⟨hnext.paddles.same, hnext.paddles.low, hnext.paddles.high⟩
  case height => exact betweenWalls_logic k g
  case place => exact hplace
  case direction => exact hnext.track.direction
  case flat => exact hnext.flat
  case away0 =>
    intro hhit
    refine ⟨h.track.direction_of_hits0_logic k hhit, fun k' hagain => ?_⟩
    exact hnext.track.once0 k' ((inColumn0_beforeHits k g).mp hhit.1)
      ((inColumn0_beforeHits k' _).mp hagain.1)
  case away1 =>
    intro hhit
    refine ⟨h.track.direction_of_hits1_logic k hhit, fun k' hagain => ?_⟩
    exact hnext.track.once1 k' ((inColumn1_beforeHits k g).mp hhit.1)
      ((inColumn1_beforeHits k' _).mp hagain.1)
  case tested0 => exact inColumn0_beforeHits k g
  case tested1 => exact inColumn1_beforeHits k g
  case noJump0 => exact h.track.noJump0 k
  case noJump1 => exact h.track.noJump1 k
  case once0 => exact h.track.once0 k
  case once1 => exact h.track.once1 k
  case behind0 => exact h.track.behind0 k
  case behind1 => exact h.track.behind1 k
  case total_le => exact h.total_le k
  case total_lt_iff => exact h.total_lt_iff k
  case centre => exact mBall_logic_of_goal

/-- Every step of every game keeps to the laws. -/
theorem stepLaws_run (keys : List Keys) (k : Keys) : StepLaws k (run keys) :=
  (sound_run keys).stepLaws k

end Sp2Module.Pong.PongGame
