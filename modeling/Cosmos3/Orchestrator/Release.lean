import Cosmos3.Orchestrator.Exclusive

namespace Cosmos3.Orchestrator

open Basis

-- An eviction was made and no VRAM wait has returned True since.
def owed : List Event → Bool
  | [] => false
  | .evictCall _ :: _ => true
  | .released true :: _ => false
  | _ :: log => owed log

-- Every start call in the history was made with the last release confirmed.
def Gated (log : List Event) : Prop :=
  ∀ later worker earlier, log = later ++ .startCall worker :: earlier → owed earlier = false

-- A load into an empty slot while the release of an earlier eviction is not
-- confirmed: the plan has nothing to evict, so its acquire never waits.
def loadsUnreleased (s : State) (a : Action) : Bool :=
  match label s a, s.phase with
  | .enters, some (.start _ plan _, .pending) => plan.evict.isNone && owed s.log
  | _, _ => false

theorem gated_nil : Gated [] := by
  intro later worker earlier h
  simp at h

theorem gated_cons (event : Event) (log : List Event) :
    Gated (event :: log) ↔
      Gated log ∧ ∀ worker, event = .startCall worker → owed log = false := by
  constructor
  · intro h
    refine ⟨fun later worker earlier hl => h (event :: later) worker earlier (by rw [hl]; rfl), ?_⟩
    rintro worker rfl
    exact h [] worker log rfl
  · rintro ⟨hlog, hhead⟩ later worker earlier hl
    cases later with
    | nil =>
        simp only [List.nil_append, List.cons.injEq] at hl
        obtain ⟨rfl, rfl⟩ := hl
        exact hhead worker rfl
    | cons first later =>
        simp only [List.cons_append, List.cons.injEq] at hl
        exact hlog later worker earlier hl.2

theorem gated_leaving (site : Site) (outcome : Outcome) (log : List Event) :
    Gated (site.leaving outcome ++ log) ↔ Gated log := by
  cases site <;> cases outcome <;> simp [Site.leaving, gated_cons]

theorem gated_entering (site : Site) (log : List Event) :
    Gated (site.entering ++ log) ↔
      Gated log ∧ ∀ target plan worker, site = .start target plan worker → owed log = false := by
  cases site <;> simp [Site.entering, gated_cons]

-- Threads leaving their calls never put a release back into doubt.
theorem owed_leaving {site : Site} {outcome : Outcome} {log : List Event}
    (h : owed log = false) : owed (site.leaving outcome ++ log) = false := by
  cases site with
  | postEvictWait target plan =>
      cases outcome with
      | raised => exact h
      | returned value => cases value <;> simp [Site.leaving, owed, h]
  | _ => cases outcome <;> simpa [Site.leaving, owed] using h

-- A swap starts its worker only after its own wait has returned True.
structure SwapReleased (c : Core) : Prop where
  waited : ∀ target plan,
    c.phase = some (.postEvictWait target plan, .done (.returned true)) → owed c.log = false
  starting : ∀ target plan worker,
    c.phase = some (.start target plan worker, .pending) → plan.evict ≠ none → owed c.log = false

theorem CoreStep.swapReleased {c c' : Core} {lab : CoreLabel} (h : CoreStep c lab c')
    (hinv : SwapReleased c) : SwapReleased c' := by
  cases h with
  | stutter => exact hinv
  | hit task target hp hr ht => exact ⟨hinv.waited, hinv.starting⟩
  | cold target worker hp hr ht =>
      refine ⟨by simp, fun _ _ _ hs hne => ?_⟩
      cases hs
      simp at hne
  | swap target hp hr ht => exact ⟨by simp, by simp⟩
  | evictAll idle hp hr => exact ⟨by simp, by simp⟩
  | enters hp => exact ⟨by simp, by simp⟩
  | @leaves site outcome hp =>
      refine ⟨fun target plan hs => ?_, by simp⟩
      cases hs
      rfl
  | evicted hp => exact ⟨by simp, by simp⟩
  | released worker hp ht =>
      refine ⟨by simp, fun _ _ _ hs _ => ?_⟩
      exact hinv.waited _ _ hp
  | started hp => exact ⟨by simp, by simp⟩
  | ready task hp => exact ⟨by simp, by simp⟩
  | notReady hp => exact ⟨by simp, by simp⟩
  | evictedAll hp => exact ⟨by simp, by simp⟩
  | fails hp hmay => exact ⟨by simp, by simp⟩
  | abort hp => exact ⟨by simp, by simp⟩
  | orphanLeaves site outcome =>
      refine ⟨fun target plan hs => ?_, fun target plan worker hs hne => ?_⟩
      · exact owed_leaving (hinv.waited target plan hs)
      · exact owed_leaving (hinv.starting target plan worker hs hne)

theorem swapReleased_initial : SwapReleased initial.core where
  waited := by simp [initial, State.core, State.phase, FifoLock.unlocked]
  starting := by simp [initial, State.core, State.phase, FifoLock.unlocked]

-- Along one step the history stays gated exactly when the step is not a load
-- into an empty slot with a release still owed.
theorem CoreStep.gated_iff {s : State} {a : Action} {c' : Core}
    (h : CoreStep s.core (label s a) c') (hinv : SwapReleased s.core) :
    Gated c'.log ↔ Gated s.log ∧ loadsUnreleased s a = false := by
  have quiet (hl : label s a = .internal) : loadsUnreleased s a = false := by
    simp [loadsUnreleased, hl]
  generalize hc : s.core = c at h hinv
  have hphase : s.phase = c.phase := congrArg Core.phase hc
  have hlog : s.log = c.log := congrArg Core.log hc
  generalize hlab : label s a = lab at h
  rw [hlog]
  cases h with
  | @enters site hp =>
      rw [gated_entering]
      unfold loadsUnreleased
      rw [hlab, hphase, hp]
      refine and_congr_right fun _ => ?_
      cases site with
      | start target plan worker =>
          have hswap := hinv.starting target plan worker hp
          cases he : plan.evict with
          | none => simp [he, hlog]
          | some resident =>
              have := hswap (by simp [he])
              simp [he, this]
      | _ => simp
  | leaves outcome hp => simp [gated_leaving, loadsUnreleased, hlab]
  | orphanLeaves site outcome => simp [gated_leaving, loadsUnreleased, hlab]
  | abort hp => simp [loadsUnreleased, hlab]
  | hit task target hp hr ht => simp [gated_cons, quiet hlab]
  | ready task hp => simp [gated_cons, quiet hlab]
  | _ => simp [quiet hlab]

theorem run_gated_iff {idleTimeout : ℚ} {s s' : State} {as : List Action} (hcons : Consistent s)
    (hinv : SwapReleased s.core) (hrun : run (step idleTimeout) s as = some s') :
    Gated s'.log ↔ Gated s.log ∧
      runWithin (step idleTimeout) (fun s a => loadsUnreleased s a = false) s as = some s' := by
  induction as generalizing s with
  | nil => cases hrun; simp [runWithin]
  | cons a as ih =>
      obtain ⟨m, hm, hrest⟩ := Option.bind_eq_some_iff.mp hrun
      have href := step_refines hcons hm
      have hiff : Gated m.log ↔ Gated s.log ∧ loadsUnreleased s a = false :=
        href.core.gated_iff hinv
      rw [ih (hcons.of_refines href) (href.core.swapReleased hinv) hrest, hiff,
        runWithin_cons_eq_some hm, and_assoc]

-- A run keeps the VRAM gate exactly when it never loads into an empty slot
-- while the release of an earlier eviction is unconfirmed.
theorem gated_iff_no_unreleased_load {idleTimeout : ℚ} {s : State} {as : List Action}
    (hrun : run (step idleTimeout) initial as = some s) :
    Gated s.log ↔
      runWithin (step idleTimeout) (fun s a => loadsUnreleased s a = false) initial as = some s := by
  rw [run_gated_iff consistent_initial swapReleased_initial hrun]
  exact and_iff_right gated_nil

section Evictions

def entersAt (s : State) (a : Action) (site : Site) : Prop :=
  label s a = .enters ∧ s.phase = some (site, .pending)

-- A wait for the VRAM returns True, and be it that of an acquire that was cancelled.
def confirms (s : State) (a : Action) : Prop :=
  (∃ target plan, label s a = .leaves (.returned true) ∧
    s.phase = some (.postEvictWait target plan, .running)) ∨
    ∃ target plan, label s a = .orphanLeaves (.postEvictWait target plan) (.returned true)

-- The last eviction of the run was at `site`, and no wait has returned True since.
def LeftBy (idleTimeout : ℚ) (site : Site) (s : State) : Prop :=
  ∃ m a m', Reachable (step idleTimeout) initial m ∧ entersAt m a site ∧
    step idleTimeout m a = some m' ∧
    Path (step idleTimeout) (fun s a => ¬confirms s a ∧ ∀ site, site.evicts ≠ none → ¬entersAt s a site) m' s

theorem owed_entering (site : Site) (log : List Event) :
    owed (site.entering ++ log) = true ↔ site.evicts ≠ none ∨ owed log = true := by
  cases site <;> simp [Site.entering, Site.evicts, owed]

theorem owed_leaving_iff (site : Site) (outcome : Outcome) (log : List Event) :
    owed (site.leaving outcome ++ log) = true ↔
      owed log = true ∧ ¬∃ target plan, site = .postEvictWait target plan ∧ outcome = .returned true := by
  cases site with
  | postEvictWait target plan =>
      cases outcome with
      | raised => simp [Site.leaving]
      | returned value => cases value <;> simp [Site.leaving, owed]
  | _ => cases outcome <;> simp [Site.leaving, owed]

-- An eviction puts the release in doubt, and nothing but a wait that returns True takes the
-- doubt away.
theorem CoreStep.owed_iff {s : State} {a : Action} {c' : Core} (h : CoreStep s.core (label s a) c') :
    owed c'.log = true ↔ (∃ site, site.evicts ≠ none ∧ entersAt s a site) ∨
      owed s.log = true ∧ ¬confirms s a := by
  have quiet (hl : label s a = .internal) :
      ((∃ site, site.evicts ≠ none ∧ entersAt s a site) ∨ owed s.log = true ∧ ¬confirms s a) ↔
        owed s.log = true := by
    simp [entersAt, confirms, hl]
  generalize hc : s.core = c at h
  have hphase : s.phase = c.phase := congrArg Core.phase hc
  have hlog : s.log = c.log := congrArg Core.log hc
  generalize hlab : label s a = lab at h
  cases h with
  | @enters site hp => simp [owed_entering, entersAt, confirms, hlab, hphase, hp, hlog]
  | @leaves site outcome hp =>
      simp only [owed_leaving_iff, entersAt, confirms, hlab, hphase, hp, hlog]
      simp [and_comm]
  | orphanLeaves site outcome =>
      simp only [owed_leaving_iff, entersAt, confirms, hlab, hlog]
      simp
  | abort hp => simp [entersAt, confirms, hlab, hlog]
  | hit task target hp hr ht =>
      rw [quiet hlab, hlog]
      rfl
  | ready task hp =>
      rw [quiet hlab, hlog]
      rfl
  | _ => rw [quiet hlab, hlog]

theorem owed_iff_leftBy {idleTimeout : ℚ} {s : State} (hr : Reachable (step idleTimeout) initial s) :
    owed s.log = true ↔ ∃ site, site.evicts ≠ none ∧ LeftBy idleTimeout site s := by
  have hconsistent : ∀ {s}, Reachable (step idleTimeout) initial s → Consistent s :=
    fun h => h.invariant Consistent consistent_initial fun _ _ _ hcons _ hs => hcons.of_refines (step_refines hcons hs)
  have howed : ∀ {s a s'}, Reachable (step idleTimeout) initial s → step idleTimeout s a = some s' →
      (owed s'.log = true ↔ (∃ site, site.evicts ≠ none ∧ entersAt s a site) ∨
        owed s.log = true ∧ ¬confirms s a) :=
    fun h hs => (step_refines (hconsistent h) hs).core.owed_iff
  constructor
  · intro howes
    induction hr with
    | start => cases howes
    | @next s s' a hr _ hs ih =>
        by_cases henters : ∃ site, site.evicts ≠ none ∧ entersAt s a site
        · obtain ⟨site, hevicts, hat⟩ := henters
          exact ⟨site, hevicts, s, a, s', hr, hat, hs, .start⟩
        · obtain ⟨hbefore, hkeeps⟩ := ((howed hr hs).mp howes).resolve_left henters
          obtain ⟨site, hevicts, m, b, m', hm, hat, hb, hpath⟩ := ih hbefore
          have hnone : ∀ site, site.evicts ≠ none → ¬entersAt s a site :=
            fun site hevicts hat => henters ⟨site, hevicts, hat⟩
          exact ⟨site, hevicts, m, b, m', hm, hat, hb, .next hpath ⟨hkeeps, hnone⟩ hs⟩
  · rintro ⟨site, hevicts, m, a, m', hm, hat, hs, hpath⟩
    have hstart : owed m'.log = true := (howed hm hs).mpr (.inl ⟨site, hevicts, hat⟩)
    refine (hpath.invariant (fun s => Reachable (step idleTimeout) initial s ∧ owed s.log = true)
      ⟨.next hm trivial hs, hstart⟩ ?_).2
    rintro s b s' ⟨hreach, howes⟩ ⟨hkeeps, -⟩ hb
    exact ⟨.next hreach trivial hb, (howed hreach hb).mpr (.inr ⟨howes, hkeeps⟩)⟩

-- Which evictions a load into the empty slot comes on top of: one of `evict_all` (the idle timer
-- calls it too) or of a worker that did not get ready, neither of which is waited for, or one of
-- a swap whose own wait has returned False, has raised or was cancelled.
theorem loadsUnreleased_iff {idleTimeout : ℚ} {s : State} {a : Action}
    (hr : Reachable (step idleTimeout) initial s) :
    loadsUnreleased s a = true ↔
      (∃ target plan worker, plan.evict = none ∧ entersAt s a (.start target plan worker)) ∧
        ∃ site, site.evicts ≠ none ∧ LeftBy idleTimeout site s := by
  rw [← owed_iff_leftBy hr]
  unfold loadsUnreleased entersAt
  split
  · rename_i target plan worker hlabel hphase
    simp [hlabel, hphase]
  · rename_i hnot
    refine ⟨nofun, ?_⟩
    rintro ⟨⟨target, plan, worker, -, hlabel, hphase⟩, -⟩
    exact absurd hphase (hnot target plan worker hlabel)

end Evictions

-- Task `task` swaps the resident plane for `target`, through the VRAM wait.
def swapLoad (task : TaskId) (target : ResidencyId) : List Action :=
  [.call task (.acquire target) true, .threadEnters task, .threadLeaves task (.returned true),
    .resumes task true, .threadEnters task, .threadLeaves task (.returned true),
    .resumes task true, .threadEnters task, .threadLeaves task (.returned true),
    .resumes task true, .threadEnters task, .threadLeaves task (.returned true),
    .resumes task true]

def swapped : State :=
  (run (step 1800) initial (coldLoad 1 reasoning ++ swapLoad 2 generation)).getD initial

theorem gated_swapped : swapped.worker = some ⟨1, generation⟩ ∧ Gated swapped.log := by
  have hrun : run (step 1800) initial (coldLoad 1 reasoning ++ swapLoad 2 generation) =
      some swapped := rfl
  exact ⟨rfl, (gated_iff_no_unreleased_load hrun).mpr rfl⟩

-- After an idle eviction, or one for a cancelled job, the slot is empty and the
-- next plane is loaded without any wait for the VRAM.
def loadAfterEvictAll : List Action :=
  coldLoad 1 reasoning ++
    [.call 2 (.evictAll false) true, .threadEnters 2, .threadLeaves 2 (.returned true),
      .resumes 2 true, .call 3 (.acquire generation) true, .threadEnters 3]

theorem ungated_load : ¬∀ s, Reachable (step 1800) initial s → Gated s.log := by
  intro h
  obtain ⟨s, hs⟩ : ∃ s, run (step 1800) initial loadAfterEvictAll = some s := ⟨_, rfl⟩
  obtain ⟨earlier, hlog⟩ : ∃ earlier, s.log =
      .startCall ⟨1, generation⟩ :: .evictCall ⟨0, reasoning⟩ :: earlier := by
    cases hs; exact ⟨_, rfl⟩
  have howed := h s (Reachable.of_run hs) [] ⟨1, generation⟩ _ hlog
  simp [owed] at howed

end Cosmos3.Orchestrator
