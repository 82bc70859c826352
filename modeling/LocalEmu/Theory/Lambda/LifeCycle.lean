import LocalEmu.Core.Lambda.ExecutionEnvironment

/-!
# The Life Cycle Of An Execution Environment

Every section that asks for the status first keeps to the life cycle. The end of
`start` does not ask, and it finds the environment in the status it left it in
only if nothing was done to it in between: an environment that was stopped during
its startup is made ready again.
-/

namespace LocalEmu.Lambda

open Option

/-- The statuses that are not left, but for `stopped`. -/
def RuntimeStatus.Final (status : RuntimeStatus) : Prop :=
  status = .stopped ∨ status = .startupFailed ∨ status = .startupTimedOut

instance (status : RuntimeStatus) : Decidable status.Final :=
  inferInstanceAs (Decidable (_ ∨ _ ∨ _))

namespace ExecutionEnvironment

variable (env : ExecutionEnvironment)

/-- `start` ends while the environment is still starting. -/
def InOrder (op : Operation) : Prop :=
  op = .startCompleted → env.status = .starting

instance (env : ExecutionEnvironment) (op : Operation) : Decidable (env.InOrder op) :=
  inferInstanceAs (Decidable (_ → _))

/-- What a section can do to the status. -/
inductive Move : Operation → RuntimeStatus → RuntimeStatus → Prop
  | start : Move .start .inactive .starting
  | startCompleted (status : RuntimeStatus) : Move .startCompleted status .ready
  | stop (status : RuntimeStatus) (hinactive : status ≠ .inactive) (hstopped : status ≠ .stopped) :
      Move .stop status .stopped
  | release : Move .release .invoking .ready
  | reserve : Move .reserve .ready .invoking
  | keepalivePassed : Move .keepalivePassed .ready .timingOut
  | timedOut : Move .timedOut .starting .startupTimedOut
  | errored : Move .errored .starting .startupFailed

variable {op : Operation}

/-- A section that needs one status, and raises in any other. -/
theorem guarded_cases {env env' next : ExecutionEnvironment} {status : RuntimeStatus}
    {raised : InvalidStatusException} {op : Operation} (hmove : Move op status next.status)
    (h : env.orSame (if env.status = status then .ok next else .error raised) = env') :
    env'.status = env.status ∨ Move op env.status env'.status := by
  by_cases hs : env.status = status
  · rw [if_pos hs] at h
    rw [hs, ← h]
    exact .inr hmove
  · rw [if_neg hs] at h
    exact .inl (by rw [← h]; rfl)

/-- What a section can do. -/
theorem apply_cases {env env' : ExecutionEnvironment} {op : Operation}
    (h : Takes apply env op env') :
    env'.status = env.status ∨ Move op env.status env'.status := by
  rw [Takes] at h
  cases op with
  | start => exact guarded_cases .start (some.inj h)
  | startCompleted =>
    rw [apply] at h
    split at h
    · rw [← some.inj h]
      exact .inr (.startCompleted _)
    · cases h
  | startRaised =>
    rw [apply] at h
    split at h
    · exact .inl (by rw [← some.inj h]; rfl)
    · cases h
  | stop =>
    rw [apply, some.injEq] at h
    by_cases hs : env.status = .inactive ∨ env.status = .stopped
    · rw [stop, if_pos hs] at h
      exact .inl (by rw [← h]; rfl)
    · rw [stop, if_neg hs] at h
      rw [not_or] at hs
      rw [← h]
      exact .inr (.stop _ hs.1 hs.2)
  | release => exact guarded_cases .release (some.inj h)
  | reserve => exact guarded_cases .reserve (some.inj h)
  | keepalivePassed =>
    rw [apply, some.injEq] at h
    by_cases hs : env.status = .ready
    · rw [keepalivePassed, if_pos hs] at h
      rw [hs, ← h]
      exact .inr .keepalivePassed
    · rw [keepalivePassed, if_neg hs] at h
      exact .inl (by rw [← h])
  | timedOut => exact guarded_cases .timedOut (some.inj h)
  | errored => exact guarded_cases .errored (some.inj h)

/-- The life cycle of an environment along the runs of some sections. -/
structure LifeCycle (env : ExecutionEnvironment) (ops : List Operation) : Prop where
  /-- A final status is not left, but for `stopped`. -/
  final : ∀ before op after u v, ops = before ++ op :: after → Runs (Takes apply) env before u →
    Takes apply u op v → u.status.Final →
      v.status = u.status ∨ (u.status ≠ .stopped ∧ v.status = .stopped)
  ready : ∀ before op after u v, ops = before ++ op :: after → Runs (Takes apply) env before u →
    Takes apply u op v → u.status ≠ .ready → v.status = .ready →
      u.status = .starting ∨ u.status = .invoking
  /-- After `reserve` and before `release`, `reserve` raises. -/
  exclusive : ∀ before mid after u u' v,
    ops = before ++ .reserve :: (mid ++ .reserve :: after) → Runs (Takes apply) env before u →
    u.reserve = .ok u' → Runs (Takes apply) u' mid v →
    (∀ mid₁ mid₂ x, mid = mid₁ ++ .release :: mid₂ → Runs (Takes apply) u' mid₁ x →
      ∃ e, x.release = .error e) →
    ∃ e, v.reserve = .error e

variable {u v : ExecutionEnvironment}

theorem status_of_final (h : Takes apply u op v)
    (horder : u.InOrder op) (hfinal : u.status.Final) :
    v.status = u.status ∨ (u.status ≠ .stopped ∧ v.status = .stopped) := by
  refine (apply_cases h).imp_right fun hmove => ?_
  rw [InOrder] at horder
  generalize u.status = s, v.status = t at *
  cases hmove with
  | stop _ _ hstopped => exact ⟨hstopped, rfl⟩
  | startCompleted =>
    rw [horder rfl] at hfinal
    exact absurd hfinal (by decide)
  | _ => exact absurd hfinal (by decide)

theorem status_of_ready (h : Takes apply u op v)
    (horder : u.InOrder op) (hu : u.status ≠ .ready) (hv : v.status = .ready) :
    (op = .startCompleted ∧ u.status = .starting) ∨ (op = .release ∧ u.status = .invoking) := by
  have hmove := (apply_cases h).resolve_left fun hsame => hu (hsame ▸ hv)
  rw [InOrder] at horder
  rw [hv] at hmove
  generalize u.status = s at *
  cases hmove with
  | startCompleted => exact .inl ⟨rfl, horder rfl⟩
  | release => exact .inr ⟨rfl, rfl⟩

/-- The statuses of an environment that is reserved and not released, or beyond. -/
def Taken : Prop :=
  env.status ≠ .ready ∧ env.status ≠ .starting ∧ env.status ≠ .inactive

theorem taken_step (h : Takes apply u op v)
    (horder : u.InOrder op) (hrelease : op = .release → ∃ e, u.release = .error e)
    (hu : u.Taken) : v.Taken := by
  rcases hu with ⟨hready, hstarting, hinactive⟩
  refine ⟨fun hv => ?_, fun hv => ?_, fun hv => ?_⟩
  · rcases status_of_ready h horder hready hv with ⟨-, hs⟩ | ⟨hop, hs⟩
    · exact hstarting hs
    · rcases hrelease hop with ⟨e, he⟩
      rw [release, if_pos hs] at he
      cases he
  · have hmove := (apply_cases h).resolve_left fun hsame => hstarting (hsame ▸ hv)
    rw [hv] at hmove
    generalize u.status = s at *
    cases hmove with
    | start => exact hinactive rfl
  · have hmove := (apply_cases h).resolve_left fun hsame => hinactive (hsame ▸ hv)
    rw [hv] at hmove
    generalize u.status = s at *
    cases hmove

/-- The runs in order keep to it. -/
theorem lifeCycle_of_inOrder (ops : List Operation)
    (h : Along (Takes apply) InOrder env ops) : LifeCycle env ops where
  final := by
    intro before op after u v hops hu hstep hfinal
    exact status_of_final hstep (h _ op _ u hops hu) hfinal
  ready := by
    intro before op after u v hops hu hstep hne hv
    rcases status_of_ready hstep (h _ op _ u hops hu) hne hv with ⟨-, hs⟩ | ⟨-, hs⟩
    · exact .inl hs
    · exact .inr hs
  exclusive := by
    intro before mid after u u' v hops hu hreserve hmid hrelease
    have hready : u.status = .ready := by
      by_contra hne
      rw [reserve, if_neg hne] at hreserve
      cases hreserve
    have hu' : u'.status = .invoking := by
      rw [reserve, if_pos hready] at hreserve
      rw [← Except.ok.inj hreserve]
    have hstep : Takes apply u .reserve u' := by
      rw [Takes, apply, hreserve]
      rfl
    -- From the first `reserve` on, as long as `release` raises.
    have halong : Along (Takes apply) (fun x op => x.InOrder op ∧
        (op = .release → ∃ e, x.release = .error e)) u' mid := by
      intro mid₁ op mid₂ x hmid₁ hx
      refine ⟨h (before ++ .reserve :: mid₁) op (mid₂ ++ .reserve :: after) x ?_ ?_, fun hop => ?_⟩
      · rw [hops, hmid₁]
        simp
      · exact hu.append (Runs.cons u u' x .reserve mid₁ hstep hx)
      · exact hrelease _ _ x (hop ▸ hmid₁) hx
    have htaken : v.Taken := hmid.invariant_along
      (fun x op y hC hx hxy => taken_step hxy hC.1 hC.2 hx) halong
      ⟨by rw [hu']; decide, by rw [hu']; decide, by rw [hu']; decide⟩
    exact ⟨_, by rw [reserve, if_neg htaken.1]⟩

end ExecutionEnvironment

end LocalEmu.Lambda
