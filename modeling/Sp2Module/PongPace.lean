import Sp2Module.PongInvariant

/-!
# The pace of Pong

The ball is on its way to a goal: every step without a goal, a collision and a restart takes it one
place closer. There are at most 104 steps to go, so in that many steps something happens. From the
centre there are 55, so the total of the scores grows no faster than by one in 55 steps.
-/

namespace Sp2Module.Pong.PongGame

variable {g : PongGame} {k : Keys} {m : ℤ}

/-- A goal, or a paddle that sends the ball back. -/
def Eventful (k : Keys) (g : PongGame) : Prop :=
  Goal k g ∨ (g.beforeHits k).Hits0 ∨ (g.beforeHits k).hitPlayer0.Hits1

/-- The ball is `m` steps from the goal it moves to. -/
def StepsToGoal (m : ℤ) (g : PongGame) : Prop :=
  (g.mBall.mDirection.x = 1 ∧ g.mBall.mX = 640 + 8 * ((55 - m : ℤ) : ℚ)) ∨
    (g.mBall.mDirection.x = -1 ∧ g.mBall.mX = 640 + 8 * ((m - 55 : ℤ) : ℚ))

/-- On the way to the right goal the ball is at the left paddle at the earliest, on the way to the
left goal at the right one. -/
theorem OnTrack.exists_stepsToGoal (h : OnTrack (-54) 54 256 1032 g) :
    ∃ m, StepsToGoal m g ∧ 1 ≤ m ∧ m ≤ 104 := by
  obtain ⟨n, hlo, hhi, hX⟩ := h.place
  rcases h.direction with hright | hleft
  · have hn : ¬ 640 + 8 * n < 256 := by
      intro hlt
      have hneg := h.left (by rw [hX]; exact_mod_cast hlt)
      rw [hright] at hneg
      norm_num at hneg
    refine ⟨55 - n, Or.inl ⟨hright, ?_⟩, by omega, by omega⟩
    rw [hX, sub_sub_cancel]
  · have hn : ¬ 1032 < 640 + 8 * n := by
      intro hlt
      have hpos := h.right (by rw [hX]; exact_mod_cast hlt)
      rw [hleft] at hpos
      norm_num at hpos
    refine ⟨n + 55, Or.inr ⟨hleft, ?_⟩, by omega, by omega⟩
    rw [hX, add_sub_cancel_right]

theorem restart_of_not_b (hb : k.b = false) : g.restart k = g := by
  rw [restart, hb]
  rfl

theorem mDirection_beforeGoals (k : Keys) (g : PongGame) :
    (g.beforeGoals k).mBall.mDirection.x = (g.restart k).mBall.mDirection.x := by
  rw [beforeGoals, (sameTrack_bounceTop _).2, (sameTrack_bounceBottom _).2]
  change (((g.restart k).holdUp k).holdDown k).mBall.mDirection.x = _
  rw [mBall_hold]

/-- A step in which nothing happens goes on in its direction. -/
theorem sameDirection_of_not_eventful (hb : k.b = false) (h : ¬ Eventful k g) :
    (g.logic k).mBall.mX = g.mBall.mX + g.mBall.mDirection.x * 8 ∧
      (g.logic k).mBall.mDirection.x = g.mBall.mDirection.x := by
  obtain ⟨hgoal, hhits⟩ := not_or.mp h
  obtain ⟨hhit0, hhit1⟩ := not_or.mp hhits
  constructor
  · rw [mX_logic_of_no_goal hgoal, restart_of_not_b hb]
  · obtain ⟨hright, hleft⟩ := not_or.mp hgoal
    rw [hitPlayer0, if_neg hhit0] at hhit1
    rw [logic, hitPlayer0, if_neg hhit0, hitPlayer1, if_neg hhit1, beforeHits,
      countGoals_of_no_goal hright hleft, mDirection_beforeGoals, restart_of_not_b hb]

/-- One step from the goal there is a goal. -/
theorem StepsToGoal.goal (h : StepsToGoal 1 g) (hb : k.b = false) : Goal k g := by
  have hX : (g.beforeGoals k).mBall.mX = g.mBall.mX + g.mBall.mDirection.x * 8 := by
    rw [mX_beforeGoals, restart_of_not_b hb]
  rcases h with ⟨hd, hplace⟩ | ⟨hd, hplace⟩
  · left
    have hn : (g.beforeGoals k).mBall.mX = 640 + 8 * ((55 : ℤ) : ℚ) := by
      rw [hX, hplace, hd]
      norm_num
    rw [rightGoal_iff hn]
  · right
    have hn : (g.beforeGoals k).mBall.mX = 640 + 8 * ((-55 : ℤ) : ℚ) := by
      rw [hX, hplace, hd]
      norm_num
    have hright : ¬ (g.beforeGoals k).RightGoal := by
      rw [rightGoal_iff hn]
      decide
    rw [countRight, if_neg hright, leftGoal_iff hn]

/-- A step in which nothing happens is one towards the goal. -/
theorem StepsToGoal.logic (h : StepsToGoal m g) (hb : k.b = false) (hquiet : ¬ Eventful k g) :
    StepsToGoal (m - 1) (g.logic k) := by
  obtain ⟨hX, hd⟩ := sameDirection_of_not_eventful hb hquiet
  rcases h with ⟨hright, hplace⟩ | ⟨hleft, hplace⟩
  · refine Or.inl ⟨hd.trans hright, ?_⟩
    rw [hX, hplace, hright]
    push_cast
    ring
  · refine Or.inr ⟨hd.trans hleft, ?_⟩
    rw [hX, hplace, hleft]
    push_cast
    ring

/-- The game behind a number of steps from `g` on. -/
def runFrom (g : PongGame) (keys : List Keys) : PongGame := keys.foldl (fun g k => g.logic k) g

/-- Something happens on the way to the goal. -/
theorem StepsToGoal.exists_eventful {keys : List Keys} (h : StepsToGoal m g) (hm : 1 ≤ m)
    (hlen : m ≤ keys.length) (hb : ∀ k ∈ keys, k.b = false) :
    ∃ done k, done ++ [k] <+: keys ∧ Eventful k (g.runFrom done) := by
  induction keys generalizing m g with
  | nil =>
    rw [List.length_nil] at hlen
    omega
  | cons k keys ih =>
    have hk := hb k List.mem_cons_self
    by_cases hevent : Eventful k g
    · exact ⟨[], k, by simp, hevent⟩
    · have hne : m ≠ 1 := by
        rintro rfl
        exact hevent (Or.inl (h.goal hk))
      rw [List.length_cons] at hlen
      push_cast at hlen
      obtain ⟨done, k', hpre, hevent'⟩ := ih (h.logic hk hevent) (by omega) (by omega)
        fun k' hk' => hb k' (List.mem_cons_of_mem k hk')
      exact ⟨k :: done, k', List.cons_prefix_cons.mpr ⟨rfl, hpre⟩, hevent'⟩

theorem run_append (keys keys' : List Keys) : run (keys ++ keys') = (run keys).runFrom keys' :=
  List.foldl_append

/-- In any 104 steps of a run without a restart there is a goal or a collision with a paddle. -/
theorem exists_eventful_run (before keys : List Keys) (hlen : 104 ≤ keys.length)
    (hb : ∀ k ∈ keys, k.b = false) :
    ∃ done k, done ++ [k] <+: keys ∧ Eventful k (run (before ++ done)) := by
  obtain ⟨m, hm, hpos, hle⟩ := (sound_run before).track.exists_stepsToGoal
  obtain ⟨done, k, hpre, hevent⟩ := hm.exists_eventful hpos (by omega) hb
  exact ⟨done, k, hpre, by rw [run_append]; exact hevent⟩

/-- Nobody holds a key for 104 steps. -/
theorem exists_eventful_run_idle : ∃ done k,
    done ++ [k] <+: List.replicate 104 ⟨false, false, false⟩ ∧ Eventful k (run ([] ++ done)) := by
  refine exists_eventful_run [] _ (by rw [List.length_replicate]) fun k hk => ?_
  rw [List.eq_of_mem_replicate hk]

/-! ### The scores -/

/-- `t` steps are enough for the scores and for where the ball is. -/
def Paced (t : ℕ) (g : PongGame) : Prop :=
  ∃ n : ℤ, g.mBall.mX = 640 + 8 * n ∧ 55 * g.total + |n| ≤ t

theorem paced_reset : Paced 0 reset := by
  refine ⟨0, ?_, le_rfl⟩
  rw [reset, mX_resetBall]
  norm_num

/-- At a goal the ball has been 54 places away from the centre. -/
theorem abs_of_goal {n : ℤ} (h : OnTrack (-54) 54 256 1032 g) (hX : g.mBall.mX = 640 + 8 * n)
    (hgoal : Goal k g) : 54 ≤ |n| ∧ k.b = false := by
  have hb : k.b = false := by
    by_contra hb
    exact not_goal_of_restart (by simpa using hb) hgoal
  refine ⟨?_, hb⟩
  have hbefore := mX_beforeGoals k g
  rw [restart_of_not_b hb, hX] at hbefore
  obtain ⟨d, hd, hplace⟩ : ∃ d : ℤ, (d = 1 ∨ d = -1) ∧
      (g.beforeGoals k).mBall.mX = 640 + 8 * ((n + d : ℤ) : ℚ) := by
    rcases h.direction with hd | hd
    · refine ⟨1, Or.inl rfl, ?_⟩
      rw [hbefore, hd]
      push_cast
      ring
    · refine ⟨-1, Or.inr rfl, ?_⟩
      rw [hbefore, hd]
      push_cast
      ring
  have hcases : 55 ≤ n + d ∨ n + d ≤ -55 := by
    by_cases hright : (g.beforeGoals k).RightGoal
    · exact Or.inl ((rightGoal_iff hplace).mp hright)
    · have hleft := hgoal.resolve_left hright
      rw [countRight, if_neg hright] at hleft
      exact Or.inr ((leftGoal_iff hplace).mp hleft)
  rcases abs_cases n with ⟨habs, hsign⟩ | ⟨habs, hsign⟩ <;> omega

theorem Paced.logic {t : ℕ} (h : Paced t g) (htrack : OnTrack (-54) 54 256 1032 g) (k : Keys) :
    Paced (t + 1) (g.logic k) := by
  obtain ⟨n, hX, hle⟩ := h
  obtain ⟨n₀, n', hX₀, hX', hstep⟩ := htrack.next_place k
  obtain rfl : n₀ = n := by
    rw [hX] at hX₀
    have hcast : (n : ℚ) = n₀ := by linarith
    exact_mod_cast hcast.symm
  refine ⟨n', hX', ?_⟩
  by_cases hgoal : Goal k g
  · obtain ⟨habs, hb⟩ := abs_of_goal htrack hX hgoal
    have hzero : n' = 0 := by
      have hcentre := mX_logic_of_goal hgoal
      rw [hX'] at hcentre
      have hcast : (n' : ℚ) = 0 := by linarith
      exact_mod_cast hcast
    rw [total_logic_of_goal hgoal, restart_of_not_b hb, hzero, abs_zero]
    push_cast
    omega
  · rw [total_logic_of_no_goal hgoal]
    by_cases hb : k.b = true
    · have hone : n' = 1 := by
        have hplace := mX_logic_of_no_goal hgoal
        rw [restart, if_pos hb, reset, mX_resetBall, hX'] at hplace
        have hcast : (n' : ℚ) = 1 := by
          norm_num [resetBall] at hplace
          linarith
        exact_mod_cast hcast
      have hnew : (g.restart k).total = 0 := by
        rw [restart, if_pos hb]
        rfl
      rw [hnew, hone, abs_one]
      push_cast
      omega
    · rw [restart_of_not_b (by simpa using hb)]
      have habs : |n'| ≤ |n₀| + 1 := by
        rcases hstep with ⟨-, h⟩ | ⟨-, h⟩ | ⟨rfl, -⟩ | ⟨rfl, -⟩
        · exact absurd h hgoal
        · exact absurd h hb
        · exact (abs_add_le n₀ 1).trans_eq (by rw [abs_one])
        · exact (abs_sub n₀ 1).trans_eq (by rw [abs_one])
      push_cast
      omega

theorem paced_run (keys : List Keys) : Paced keys.length (run keys) := by
  induction keys using List.reverseRecOn with
  | nil => exact paced_reset
  | append_singleton keys k ih =>
    have hnext := ih.logic (sound_run keys).track k
    rw [List.length_append, List.length_singleton]
    rwa [run, List.foldl_concat]

/-- A run of `n` steps ends with no more than `n / 55` goals on the board. -/
theorem total_run_le (keys : List Keys) :
    0 ≤ (run keys).total ∧ 55 * (run keys).total ≤ keys.length := by
  obtain ⟨n, -, hle⟩ := paced_run keys
  have habs := abs_nonneg n
  exact ⟨(sound_run keys).total, by omega⟩

end Sp2Module.Pong.PongGame
